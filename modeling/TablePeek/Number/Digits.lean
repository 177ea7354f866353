set_option autoImplicit false

namespace TablePeek.Digits

def char (d : Nat) : Char := Char.ofNat ('0'.toNat + d % 10)

def value (c : Char) : Nat := c.toNat - '0'.toNat

def ofNat (n : Nat) : List Char :=
  if n < 10 then [char n] else ofNat (n / 10) ++ [char n]
termination_by n
decreasing_by omega

def fold (start : Nat) (ds : List Char) : Nat := ds.foldl (fun n c => 10 * n + value c) start

def toNat (ds : List Char) : Nat := fold 0 ds

def foldBelow (limit start : Nat) (ds : List Char) : Nat :=
  ds.foldl (fun n c => if n < limit then 10 * n + value c else n) start

def ofInt (i : Int) : List Char := if i < 0 then '-' :: ofNat i.natAbs else ofNat i.natAbs

def count (n : Nat) : Nat := (ofNat n).length

def padded (width n : Nat) : List Char :=
  let ds := ofNat n
  List.replicate (width - ds.length) '0' ++ ds

def allDigits (cs : List Char) : Bool := !cs.isEmpty && cs.all Char.isDigit

def splitSign : List Char → Bool × List Char
  | '-' :: rest => (true, rest)
  | '+' :: rest => (false, rest)
  | cs => (false, cs)

end TablePeek.Digits
