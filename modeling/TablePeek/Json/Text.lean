import TablePeek.Json.Value

set_option autoImplicit false

namespace TablePeek.Json

def hexDigit (n : Nat) : Char :=
  if n < 10 then Char.ofNat ('0'.toNat + n) else Char.ofNat ('a'.toNat + (n - 10))

def escapeChar (c : Char) : List Char :=
  if c = '"' then ['\\', '"']
  else if c = '\\' then ['\\', '\\']
  else if c = '\x08' then ['\\', 'b']
  else if c = '\x0c' then ['\\', 'f']
  else if c = '\n' then ['\\', 'n']
  else if c = '\r' then ['\\', 'r']
  else if c = '\t' then ['\\', 't']
  else if c.toNat < 0x20 then ['\\', 'u', '0', '0', hexDigit (c.toNat / 16), hexDigit (c.toNat % 16)]
  else [c]

def quote (s : String) : List Char := '"' :: s.toList.flatMap escapeChar ++ ['"']

namespace Value

mutual

def toText : Value → List Char
  | .null => "null".toList
  | .bool b => (Cell.boolText b).toList
  | .integer i => Digits.ofInt i
  | .float x => Layout.nested.write x
  | .string s => quote s
  | .array [] => ['[', ']']
  | .array (v :: rest) => '[' :: v.toText ++ itemsText rest
  | .object [] => ['\x7b', '\x7d']
  | .object ((k, v) :: rest) => '\x7b' :: quote k ++ ':' :: v.toText ++ membersText rest

def itemsText : List Value → List Char
  | [] => [']']
  | v :: rest => ',' :: v.toText ++ itemsText rest

def membersText : List (String × Value) → List Char
  | [] => ['\x7d']
  | (k, v) :: rest => ',' :: quote k ++ ':' :: v.toText ++ membersText rest

end

end Value

end TablePeek.Json

namespace TablePeek

-- Whole numbers past the signed ones become floats, and nested values keep their text.
def Cell.ofJson : Json.Value → Cell
  | .null => .null
  | .bool b => .bool b
  | .integer i =>
    if -0x8000000000000000 ≤ i ∧ i < 0x8000000000000000 then .integer (Int64.ofInt i)
    else .float (.ofInt i)
  | .float x => .float x
  | .string s => .text s
  | .array items => .text (String.ofList (Json.Value.array items).toText)
  | .object members => .text (String.ofList (Json.Value.object members).toText)

end TablePeek
