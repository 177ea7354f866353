import TablePeek.Text.Utf8

set_option autoImplicit false

namespace TablePeek.Columnar

abbrev Bytes := Utf8.Bytes

abbrev Read (α : Type) := Bytes → Option (α × Bytes)

def takeBytes (n : Nat) : Read Bytes := fun bs =>
  if n ≤ bs.length then some (bs.take n, bs.drop n) else none

def littleEndian : Bytes → Nat
  | [] => 0
  | b :: rest => b.toNat + 256 * littleEndian rest

def word (n : Nat) : Read Nat := fun bs => (takeBytes n bs).map fun p => (littleEndian p.1, p.2)

def varint : Read Nat
  | [] => none
  | b :: rest =>
    if b.toNat < 128 then some (b.toNat, rest)
    else (varint rest).map fun p => (b.toNat - 128 + 128 * p.1, p.2)

def unzigzag (n : Nat) : Int := if n % 2 = 0 then (n / 2 : Nat) else -((n / 2 + 1 : Nat) : Int)

def signed (bits n : Nat) : Int := if n < 1 <<< (bits - 1) then n else (n : Int) - (1 <<< bits : Nat)

end TablePeek.Columnar
