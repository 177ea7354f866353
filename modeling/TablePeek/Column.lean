import TablePeek.Calendar
import TablePeek.Cell

set_option autoImplicit false

namespace TablePeek

inductive ColumnType where
  | text
  | boolean
  | int64
  | int32
  | float64
  | timestamp
deriving DecidableEq, Repr

namespace ColumnType

-- A timestamp counts milliseconds since the start of 1970.
abbrev Entry : ColumnType → Type
  | .text => String
  | .boolean => Bool
  | .int64 => Int64
  | .int32 => Int32
  | .float64 => Binary64
  | .timestamp => Int64

instance decidableEqEntry : (t : ColumnType) → DecidableEq t.Entry
  | .text => inferInstanceAs (DecidableEq String)
  | .boolean => inferInstanceAs (DecidableEq Bool)
  | .int64 => inferInstanceAs (DecidableEq Int64)
  | .int32 => inferInstanceAs (DecidableEq Int32)
  | .float64 => inferInstanceAs (DecidableEq Binary64)
  | .timestamp => inferInstanceAs (DecidableEq Int64)

def name : ColumnType → String
  | .text => "Utf8"
  | .boolean => "Boolean"
  | .int64 => "Int64"
  | .int32 => "Int32"
  | .float64 => "Float64"
  | .timestamp => "Timestamp(Millisecond, None)"

def blank : (t : ColumnType) → t.Entry
  | .text => ""
  | .boolean => false
  | .int64 => 0
  | .int32 => 0
  | .float64 => .zero false
  | .timestamp => 0

def castError (millis : Int) : String :=
  String.ofList ("ERROR: Cast error: Failed to convert ".toList ++
    (Digits.ofInt millis ++ " to datetime for Timestamp(Millisecond, None)".toList))

def instantText (millis : Int) : String :=
  if Instant.Dated millis then String.ofList (Instant.toText millis) else castError millis

def entryText : (t : ColumnType) → t.Entry → String
  | .text, s => s
  | .boolean, b => Cell.boolText b
  | .int64, i => String.ofList (Digits.ofInt i.toInt)
  | .int32, i => String.ofList (Digits.ofInt i.toInt)
  | .float64, x => String.ofList (Layout.grid.write x)
  | .timestamp, i => instantText i.toInt

end ColumnType

structure Column where
  type : ColumnType
  entries : List (Option type.Entry)
deriving DecidableEq

namespace Column

def length (c : Column) : Nat := c.entries.length

def nullCount (c : Column) : Nat := c.entries.countP Option.isNone

def hasNull (c : Column) : Bool := c.entries.any Option.isNone

def take (n : Nat) (c : Column) : Column := ⟨c.type, c.entries.take n⟩

def drop (n : Nat) (c : Column) : Column := ⟨c.type, c.entries.drop n⟩

def fillNulls (c : Column) : Column :=
  ⟨c.type, c.entries.map fun e => some (e.getD c.type.blank)⟩

def texts (c : Column) : List String :=
  c.entries.map fun e => (e.map c.type.entryText).getD ""

end Column

end TablePeek
