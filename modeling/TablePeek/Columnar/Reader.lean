import TablePeek.Columnar.Pages
import TablePeek.Columnar.Stored

set_option autoImplicit false

namespace TablePeek.Columnar

inductive Error where
  | tooSmall (size needed : Nat)
  | corruptFooter
  | encryptedFooter
  | badMetadata
deriving DecidableEq, Repr

def Error.message : Error → String
  | .tooSmall size needed =>
    "EOF: Parquet file too small. Size is " ++ toString size ++ " but need " ++ toString needed
  | .corruptFooter => "Parquet error: Invalid Parquet file. Corrupt footer"
  | .encryptedFooter =>
    "Parquet error: Parquet file has an encrypted footer but the encryption feature is disabled"
  | .badMetadata => "Parquet error: Could not parse metadata: end of file"

def footerSize : Nat := 8

def plainMark : Bytes := Utf8.encodeString "PAR1"

def encryptedMark : Bytes := Utf8.encodeString "PARE"

def metadata (file : Bytes) : Except Error Bytes :=
  let size := file.length
  if size < footerSize then .error (.tooSmall size footerSize)
  else
    let footer := file.drop (size - footerSize)
    let mark := footer.drop 4
    let length := littleEndian (footer.take 4)
    if mark ≠ plainMark ∧ mark ≠ encryptedMark then .error .corruptFooter
    else if size < length + footerSize then .error (.tooSmall size (length + footerSize))
    else if mark = encryptedMark then .error .encryptedFooter
    else .ok ((file.drop (size - footerSize - length)).take length)

def columnType? (element : Item) : Option ColumnType := do
  match ← (← element.field? 1).nat? with
  | 0 => return .boolean
  | 1 => return .int32
  | 2 =>
    let logical := ((element.field? 10).map fun l => l.hasField 8).getD false
    let converted := (element.field? 6).bind Item.nat? = some 9
    return if logical || converted then .timestamp else .int64
  | 5 => return .float64
  | 6 => return .text
  | _ => none

def field? (element : Item) : Option Field := do
  let type ← columnType? element
  let name ← Utf8.decode? (← (← element.field? 4).bytes?)
  let repetition ← (← element.field? 3).nat?
  return ⟨String.ofList name, type, repetition = 1⟩

def chunk? (i : Item) : Option Chunk := do
  let data ← i.field? 3
  let dataStart ← (← data.field? 9).nat?
  let start := (((data.field? 11).bind Item.nat?).map (min dataStart)).getD dataStart
  return ⟨← Codec.ofNat? (← (← data.field? 4).nat?), ← (← data.field? 5).nat?, start⟩

def group? (i : Item) : Option (List Chunk) := do (← (← i.field? 1).list?).mapM chunk?

def column? (file : Bytes) (f : Field) (chunks : List (Option Chunk)) : Option Column := do
  let parts ← chunks.mapM fun c => c.bind fun c => c.read f.type f.nullable file
  return ⟨f.type, parts.flatten⟩

def columns? (file : Bytes) : Schema → List (List Chunk) → Option (List Column)
  | [], _ => some []
  | f :: fields, groups => do
    let c ← column? file f (groups.map List.head?)
    return c :: (← columns? file fields (groups.map List.tail))

def stored? (file : Bytes) (description : Item) : Option StoredTable := do
  let elements ← (← description.field? 2).list?
  let schema : Schema ← (elements.drop 1).mapM field?
  let rows ← (← description.field? 3).nat?
  let groups ← (← (← description.field? 4).list?).mapM group?
  let columns ← columns? file schema groups
  if holds : schema.Holds rows columns then return ⟨schema, rows, columns, holds⟩ else none

def read (file : Bytes) : Except Error StoredTable :=
  match metadata file with
  | .error e => .error e
  | .ok bs =>
    match (Compact.struct bs).bind fun p => stored? file p.1 with
    | none => .error .badMetadata
    | some s => .ok s

end TablePeek.Columnar
