import TablePeek.Columnar.Bytes

set_option autoImplicit false

namespace TablePeek.Columnar

inductive Item where
  | bool (b : Bool)
  | int (i : Int)
  | bytes (bs : Bytes)
  | list (items : List Item)
  | struct (fields : List (Nat × Item))

namespace Item

def field? (n : Nat) : Item → Option Item
  | .struct fields => fields.lookup n
  | _ => none

def int? : Item → Option Int
  | .int i => some i
  | _ => none

def nat? (i : Item) : Option Nat := i.int?.map Int.toNat

def bytes? : Item → Option Bytes
  | .bytes bs => some bs
  | _ => none

def list? : Item → Option (List Item)
  | .list items => some items
  | _ => none

def hasField (i : Item) (n : Nat) : Bool := (i.field? n).isSome

end Item

namespace Compact

def fieldNumber (before step : Nat) : Read Nat := fun bs =>
  if step = 0 then (varint bs).map fun p => ((unzigzag p.1).toNat, p.2) else some (before + step, bs)

def listHead : Read (Nat × Nat)
  | [] => none
  | b :: rest =>
    if b.toNat / 16 = 15 then (varint rest).map fun p => ((b.toNat % 16, p.1), p.2)
    else some ((b.toNat % 16, b.toNat / 16), rest)

mutual

def item : Nat → Nat → Read Item
  | 0, _ => fun _ => none
  | fuel + 1, type => fun bs =>
    match type with
    | 1 => some (.bool true, bs)
    | 2 => some (.bool false, bs)
    | 3 => (word 1 bs).map fun p => (.int (signed 8 p.1), p.2)
    | 4 => (varint bs).map fun p => (.int (unzigzag p.1), p.2)
    | 5 => (varint bs).map fun p => (.int (unzigzag p.1), p.2)
    | 6 => (varint bs).map fun p => (.int (unzigzag p.1), p.2)
    | 7 => (takeBytes 8 bs).map fun p => (.bytes p.1, p.2)
    | 8 => (varint bs).bind fun p => (takeBytes p.1 p.2).map fun q => (.bytes q.1, q.2)
    | 9 => (listHead bs).bind fun p =>
      (items fuel p.1.1 p.1.2 p.2).map fun q => (.list q.1, q.2)
    | 10 => (listHead bs).bind fun p =>
      (items fuel p.1.1 p.1.2 p.2).map fun q => (.list q.1, q.2)
    | 12 => (fields fuel 0 bs).map fun q => (.struct q.1, q.2)
    | _ => none

-- In a list a truth value takes a byte of its own.
def items : Nat → Nat → Nat → Read (List Item)
  | 0, _, _ => fun _ => none
  | _ + 1, _, 0 => fun bs => some ([], bs)
  | fuel + 1, type, count + 1 => fun bs =>
    (if type ≤ 2 then (word 1 bs).map fun p => (Item.bool (p.1 = 1), p.2) else item fuel type bs).bind
      fun p => (items fuel type count p.2).map fun q => (p.1 :: q.1, q.2)

def fields : Nat → Nat → Read (List (Nat × Item))
  | 0, _ => fun _ => none
  | fuel + 1, before => fun bs =>
    match bs with
    | [] => none
    | b :: rest =>
      if b = 0 then some ([], rest)
      else
        (fieldNumber before (b.toNat / 16) rest).bind fun n =>
          (item fuel (b.toNat % 16) n.2).bind fun v =>
            (fields fuel n.1 v.2).map fun q => ((n.1, v.1) :: q.1, q.2)

end

-- Every element takes a byte, so twice their number bounds the nesting.
def struct : Read Item := fun bs => item (2 * bs.length + 2) 12 bs

end Compact

end TablePeek.Columnar
