import TablePeek.Number.Numeral
import TablePeek.Number.Layout

set_option autoImplicit false

namespace TablePeek

inductive Cell where
  | text (s : String)
  | integer (i : Int64)
  | float (x : Binary64)
  | bool (b : Bool)
  | null
deriving DecidableEq, Repr

namespace Cell

def guess (s : String) : Cell :=
  if s = "" then .null
  else if s = "true" then .bool true
  else if s = "false" then .bool false
  else
    match readInt64? s.toList with
    | some i => .integer i
    | none =>
      match Binary64.read? s.toList with
      | some x => .float x
      | none => .text s

def boolText (b : Bool) : String := if b then "true" else "false"

def toText : Cell → String
  | .text s => s
  | .integer i => String.ofList (Digits.ofInt i.toInt)
  | .float x => String.ofList (Layout.plain.write x)
  | .bool b => boolText b
  | .null => ""

end Cell

end TablePeek
