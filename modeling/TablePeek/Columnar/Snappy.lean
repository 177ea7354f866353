import TablePeek.Columnar.Bytes

set_option autoImplicit false

namespace TablePeek.Columnar.Snappy

-- The copy may run into what it has itself put out.
def copy (distance : Nat) : Nat → Array UInt8 → Option (Array UInt8)
  | 0, out => some out
  | n + 1, out =>
    if distance = 0 ∨ out.size < distance then none
    else (out[out.size - distance]?).bind fun b => copy distance n (out.push b)

def literalLength (code : Nat) : Read Nat := fun bs =>
  if code < 60 then some (code + 1, bs) else (word (code - 59) bs).map fun p => (p.1 + 1, p.2)

def element (out : Array UInt8) : Read (Array UInt8)
  | [] => none
  | b :: rest =>
    let tag := b.toNat
    let code := tag / 4
    match tag % 4 with
    | 0 => (literalLength code rest).bind fun n =>
      (takeBytes n.1 n.2).map fun p => (out ++ p.1.toArray, p.2)
    | 1 => (word 1 rest).bind fun p =>
      (copy (code / 8 * 256 + p.1) (code % 8 + 4) out).map fun out => (out, p.2)
    | 2 => (word 2 rest).bind fun p => (copy p.1 (code + 1) out).map fun out => (out, p.2)
    | _ => (word 4 rest).bind fun p => (copy p.1 (code + 1) out).map fun out => (out, p.2)

def elements : Nat → Array UInt8 → Bytes → Option (Array UInt8)
  | 0, _, _ => none
  | _ + 1, out, [] => some out
  | fuel + 1, out, b :: rest =>
    (element out (b :: rest)).bind fun p => elements fuel p.1 p.2

def decompress (bs : Bytes) : Option Bytes :=
  (varint bs).bind fun n =>
    (elements (n.2.length + 1) #[] n.2).bind fun out =>
      if out.size = n.1 then some out.toList else none

end TablePeek.Columnar.Snappy
