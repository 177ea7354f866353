import TablePeek.Columnar.Bytes

set_option autoImplicit false

namespace TablePeek.Columnar.Runs

def unpack (width : Nat) : Nat → Nat → List Nat
  | 0, _ => []
  | count + 1, n => n % (1 <<< width) :: unpack width count (n >>> width)

def groups (width : Nat) : Nat → Read (List Nat)
  | 0, bs => some ([], bs)
  | n + 1, bs =>
    (word width bs).bind fun p =>
      (groups width n p.2).map fun q => (unpack width 8 p.1 ++ q.1, q.2)

def run (width : Nat) : Read (List Nat) := fun bs =>
  (varint bs).bind fun head =>
    if head.1 % 2 = 1 then groups width (head.1 / 2) head.2
    else
      (word ((width + 7) / 8) head.2).map fun p => (List.replicate (head.1 / 2) p.1, p.2)

def decode (width : Nat) : Nat → Nat → Bytes → Option (List Nat)
  | _, 0, _ => some []
  | 0, _ + 1, _ => none
  | fuel + 1, count, bs =>
    (run width bs).bind fun p =>
      if count ≤ p.1.length then some (p.1.take count)
      else (decode width fuel (count - p.1.length) p.2).map fun rest => p.1 ++ rest

end TablePeek.Columnar.Runs
