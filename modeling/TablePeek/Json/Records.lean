import TablePeek.Json.Text
import TablePeek.Table

set_option autoImplicit false

namespace TablePeek.Json

inductive Malformed where
  | notList
  | notRecord (index : Nat)
deriving DecidableEq, Repr

def Malformed.message : Malformed → String
  | .notList => "expected a top-level JSON array"
  | .notRecord i => "record " ++ toString i ++ " is not a JSON object"

structure Growing where
  name : String
  cells : Array Cell
deriving DecidableEq, Repr

namespace Growing

-- A key that no record had before begins a column, with a null for every record before.
def push (rows : Nat) (m : String × Value) : List Growing → List Growing
  | [] => [⟨m.1, (Array.replicate rows .null).push (.ofJson m.2)⟩]
  | g :: rest =>
    if g.name = m.1 then ⟨g.name, g.cells.push (.ofJson m.2)⟩ :: rest else g :: push rows m rest

def topUp (rows : Nat) (g : Growing) : Growing :=
  if g.cells.size ≤ rows then ⟨g.name, g.cells.push .null⟩ else g

def addRecord (rows : Nat) (columns : List Growing) (record : List (String × Value)) :
    List Growing :=
  (record.foldl (fun columns m => push rows m columns) columns).map (topUp rows)

def addAll (rows : Nat) (columns : List Growing) : List Value → Except Malformed (List Growing)
  | [] => .ok columns
  | .object record :: rest => addAll (rows + 1) (addRecord rows columns record) rest
  | _ :: _ => .error (.notRecord rows)

end Growing

def columns : Value → Except Malformed (List (String × List Cell))
  | .array records =>
    (Growing.addAll 0 [] records).map fun cs => cs.map fun g => (g.name, g.cells.toList)
  | _ => .error .notList

end TablePeek.Json
