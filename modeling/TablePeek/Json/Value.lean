import TablePeek.Cell

set_option autoImplicit false

namespace TablePeek.Json

inductive Value where
  | null
  | bool (b : Bool)
  | integer (i : Int)
  | float (x : Binary64)
  | string (s : String)
  | array (items : List Value)
  | object (members : List (String × Value))

-- In the place the key already has, else in a new place at the end.
def assign (key : String) (v : Value) : List (String × Value) → List (String × Value)
  | [] => [(key, v)]
  | (k, w) :: rest => if k = key then (k, v) :: rest else (k, w) :: assign key v rest

end TablePeek.Json
