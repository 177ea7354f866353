import TablePeek.Column
import TablePeek.Columnar.Compact
import TablePeek.Columnar.Runs
import TablePeek.Columnar.Snappy

set_option autoImplicit false

namespace TablePeek.Columnar

def plainEntry : (t : ColumnType) → Read t.Entry
  | .text => fun bs =>
    (word 4 bs).bind fun n => (takeBytes n.1 n.2).bind fun p =>
      (Utf8.decode? p.1).map fun cs => (String.ofList cs, p.2)
  | .boolean => fun bs => (word 1 bs).map fun p => (p.1 = 1, p.2)
  | .int64 => fun bs => (word 8 bs).map fun p => (Int64.ofInt (signed 64 p.1), p.2)
  | .int32 => fun bs => (word 4 bs).map fun p => (Int32.ofInt (signed 32 p.1), p.2)
  | .float64 => fun bs => (word 8 bs).map fun p => (Binary64.ofWord (UInt64.ofNat p.1), p.2)
  | .timestamp => fun bs => (word 8 bs).map fun p => (Int64.ofInt (signed 64 p.1), p.2)

def plainEntries (t : ColumnType) : Nat → Read (List t.Entry)
  | 0, bs => some ([], bs)
  | n + 1, bs =>
    (plainEntry t bs).bind fun p => (plainEntries t n p.2).map fun q => (p.1 :: q.1, q.2)

def plain : (t : ColumnType) → Nat → Bytes → Option (List t.Entry)
  | .boolean, n, bs =>
    (takeBytes ((n + 7) / 8) bs).map fun p => (Runs.unpack 1 n (littleEndian p.1)).map (· = 1)
  | t, n, bs => (plainEntries t n bs).map Prod.fst

def fromDictionary {α : Type} (dictionary : Array α) (n : Nat) : Bytes → Option (List α)
  | [] => if n = 0 then some [] else none
  | width :: bs =>
    (Runs.decode width.toNat (bs.length + 1) n bs).bind fun places =>
      places.mapM fun i => dictionary[i]?

inductive Codec where
  | none
  | snappy
deriving DecidableEq, Repr

def Codec.ofNat? : Nat → Option Codec
  | 0 => some .none
  | 1 => some .snappy
  | _ => Option.none

def Codec.unpack : Codec → Bytes → Option Bytes
  | .none, bs => some bs
  | .snappy, bs => Snappy.decompress bs

structure Chunk where
  codec : Codec
  entries : Nat
  start : Nat
deriving DecidableEq, Repr

inductive Encoding where
  | plain
  | dictionary
deriving DecidableEq, Repr

def Encoding.ofNat? : Nat → Option Encoding
  | 0 => some .plain
  | 2 => some .dictionary
  | 8 => some .dictionary
  | _ => Option.none

inductive PageHead where
  | dictionary (entries : Nat)
  | data (entries : Nat) (encoding : Encoding)
deriving DecidableEq, Repr

def pageHead? (i : Item) : Option PageHead := do
  match ← (← i.field? 1).nat? with
  | 0 =>
    let head ← i.field? 5
    return .data (← (← head.field? 1).nat?) (← Encoding.ofNat? (← (← head.field? 2).nat?))
  | 2 => return .dictionary (← (← (← i.field? 7).field? 1).nat?)
  | _ => none

def page (codec : Codec) : Read (PageHead × Bytes) := fun bs => do
  let (item, bs) ← Compact.struct bs
  let head ← pageHead? item
  let (packed, rest) ← takeBytes (← (← item.field? 3).nat?) bs
  return ((head, ← codec.unpack packed), rest)

def presence (nullable : Bool) (n : Nat) : Read (List Bool) := fun bs =>
  if nullable then do
    let (size, bs) ← word 4 bs
    let (levels, rest) ← takeBytes size bs
    return ((← Runs.decode 1 (levels.length + 1) n levels).map (· = 1), rest)
  else some (List.replicate n true, bs)

def place {α : Type} : List Bool → List α → List (Option α)
  | [], _ => []
  | true :: rest, x :: xs => some x :: place rest xs
  | _ :: rest, xs => none :: place rest xs

def dataPage (t : ColumnType) (nullable : Bool) (dictionary : Array t.Entry) (n : Nat)
    (encoding : Encoding) (bs : Bytes) : Option (List (Option t.Entry)) := do
  let (present, bs) ← presence nullable n bs
  let count := present.countP id
  match encoding with
  | .plain => return place present (← plain t count bs)
  | .dictionary => return place present (← fromDictionary dictionary count bs)

def pages (t : ColumnType) (nullable : Bool) (codec : Codec) :
    Nat → Array t.Entry → Nat → Bytes → Option (List (Option t.Entry))
  | _, _, 0, _ => some []
  | 0, _, _ + 1, _ => none
  | fuel + 1, dictionary, left + 1, bs =>
    match page codec bs with
    | none => none
    | some ((.dictionary n, body), rest) =>
      (plain t n body).bind fun entries => pages t nullable codec fuel entries.toArray (left + 1) rest
    | some ((.data n encoding, body), rest) =>
      (dataPage t nullable dictionary n encoding body).bind fun entries =>
        (pages t nullable codec fuel dictionary (left + 1 - n) rest).map (entries ++ ·)

def Chunk.read (c : Chunk) (t : ColumnType) (nullable : Bool) (file : Bytes) :
    Option (List (Option t.Entry)) :=
  let bs := file.drop c.start
  pages t nullable c.codec (bs.length + 1) #[] c.entries bs

end TablePeek.Columnar
