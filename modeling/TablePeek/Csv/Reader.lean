import TablePeek.Csv.Records
import TablePeek.Table

set_option autoImplicit false

namespace TablePeek.Csv

open Utf8 (Bytes)

inductive Fault where
  | unequalLengths (found expected : Nat)
  | notText (field valid : Nat)
deriving DecidableEq, Repr

structure Error where
  record : Nat
  mark : Mark
  fault : Fault
deriving DecidableEq, Repr

def Error.message (e : Error) : String :=
  let record := toString e.record
  let line := toString e.mark.line
  let byte := toString e.mark.byte
  match e.fault with
  | .unequalLengths found expected =>
    "CSV error: record " ++ record ++ " (line: " ++ line ++ ", byte: " ++ byte ++
      "): found record with " ++ toString found ++ " fields, but the previous record has " ++
      toString expected ++ " fields"
  | .notText field valid =>
    "CSV parse error: record " ++ record ++ " (line " ++ line ++ ", field: " ++ toString field ++
      ", byte: " ++ byte ++ "): invalid utf-8: invalid UTF-8 in field " ++ toString field ++
      " near byte index " ++ toString valid

def texts (number : Nat) : List Bytes → Except Fault (List String)
  | [] => .ok []
  | field :: rest =>
    match Utf8.decode? field with
    | none => .error (.notText number (Utf8.validLength field))
    | some cs => (texts (number + 1) rest).map fun ts => String.ofList cs :: ts

def checkRecord (width : Nat) (r : Record) : Except Fault (List String) :=
  if r.fields.length = width then texts 0 r.fields
  else .error (.unequalLengths r.fields.length width)

def checkAll (width number : Nat) : List Record → Except Error (List (List String))
  | [] => .ok []
  | r :: rest =>
    match checkRecord width r with
    | .error fault => .error ⟨number, r.mark, fault⟩
    | .ok row => (checkAll width (number + 1) rest).map fun rows => row :: rows

structure Sheet where
  header : List String
  rows : List (List String)
deriving DecidableEq, Repr

def sheet : List Record → Except Error Sheet
  | [] => .ok ⟨[], []⟩
  | r :: rest =>
    match checkRecord r.fields.length r with
    | .error fault => .error ⟨0, r.mark, fault⟩
    | .ok header => (checkAll r.fields.length 1 rest).map fun rows => ⟨header, rows⟩

def columnsFrom (rows : List (List String)) (number : Nat) : List String → List (String × List Cell)
  | [] => []
  | name :: rest =>
    (name, rows.map fun row => Cell.guess (row.getD number "")) :: columnsFrom rows (number + 1) rest

def Sheet.columns (s : Sheet) : List (String × List Cell) := columnsFrom s.rows 0 s.header

def read (bs : Bytes) : Except Error (List (String × List Cell)) := (sheet (split bs)).map Sheet.columns

end TablePeek.Csv
