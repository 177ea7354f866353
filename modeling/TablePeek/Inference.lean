import TablePeek.Column

set_option autoImplicit false

namespace TablePeek

inductive Kind where
  | null
  | bool
  | integer
  | float
  | text
deriving DecidableEq, Repr

namespace Kind

def ofCell : Cell → Kind
  | .null => .null
  | .bool _ => .bool
  | .integer _ => .integer
  | .float _ => .float
  | .text _ => .text

def join : Kind → Kind → Kind
  | .null, k => k
  | k, .null => k
  | .bool, .bool => .bool
  | .integer, .integer => .integer
  | .integer, .float => .float
  | .float, .integer => .float
  | .float, .float => .float
  | _, _ => .text

def widen (k : Kind) (c : Cell) : Kind := k.join (.ofCell c)

def ofCells (cells : List Cell) : Kind := cells.foldl widen .null

end Kind

namespace Cell

def asInteger? : Cell → Option Int64
  | .integer i => some i
  | _ => none

def asFloat? : Cell → Option Binary64
  | .integer i => some (.ofInt i.toInt)
  | .float x => some x
  | _ => none

def asBool? : Cell → Option Bool
  | .bool b => some b
  | _ => none

def asText? : Cell → Option String
  | .null => none
  | c => some c.toText

end Cell

namespace Column

def infer (cells : List Cell) : Column :=
  match Kind.ofCells cells with
  | .integer => ⟨.int64, cells.map Cell.asInteger?⟩
  | .float => ⟨.float64, cells.map Cell.asFloat?⟩
  | .bool => ⟨.boolean, cells.map Cell.asBool?⟩
  | .text | .null => ⟨.text, cells.map Cell.asText?⟩

end Column

end TablePeek
