import TablePeek.Columnar.Reader
import TablePeek.Csv.Reader
import TablePeek.Files.FileSystem
import TablePeek.Format
import TablePeek.Json.Reader
import TablePeek.Json.Records

set_option autoImplicit false

namespace TablePeek

inductive LoadError where
  | io (e : FileError)
  | csvFile (e : FileError)
  | csv (e : Csv.Error)
  | json (e : Json.Error)
  | malformed (m : Json.Malformed)
  | columnarFile (e : FileError)
  | columnar (e : Columnar.Error)
  | batch (e : BatchError)
deriving DecidableEq, Repr

namespace LoadError

def kind : LoadError → String
  | .io _ => "Io"
  | .csvFile _ => "Csv"
  | .csv _ => "Csv"
  | .json _ => "Json"
  | .malformed _ => "Malformed"
  | .columnarFile _ => "Parquet"
  | .columnar _ => "Parquet"
  | .batch _ => "Arrow"

def message : LoadError → String
  | .io e => e.message
  | .csvFile e => e.message
  | .csv e => e.message
  | .json e => e.message
  | .malformed m => m.message
  | .columnarFile e => "External: " ++ e.message
  | .columnar e => e.message
  | .batch e => e.message

-- From the outside in; an error that wraps another one repeats its text.
def chain : LoadError → List String
  | .malformed m => [m.message]
  | .columnarFile e => ["External: " ++ e.message, "External: " ++ e.message, e.message]
  | e => [e.message, e.message]

end LoadError

namespace Load

def tableOf (columns : List (String × List Cell)) : Except LoadError Table :=
  (Table.ofColumns (columns.map fun c => (c.1, .infer c.2))).mapError .batch

def csvBytes (bs : Utf8.Bytes) : Except LoadError Table :=
  match Csv.read bs with
  | .error e => .error (.csv e)
  | .ok columns => tableOf columns

def jsonText (text : List Char) : Except LoadError Table :=
  match Json.read text with
  | .error e => .error (.json e)
  | .ok v =>
    match Json.columns v with
    | .error m => .error (.malformed m)
    | .ok columns => tableOf columns

def csv : Node → Except LoadError Table
  | .directory => .error (.csvFile .isDirectory)
  | .file (.bytes bs) => csvBytes bs
  | .file (.stored _) => .error (.csvFile .notText)

def json : Node → Except LoadError Table
  | .directory => .error (.io .isDirectory)
  | .file (.bytes bs) =>
    match Utf8.decode? bs with
    | none => .error (.io .notText)
    | some text => jsonText text
  | .file (.stored _) => .error (.io .notText)

def columnar : Node → Except LoadError Table
  | .directory => .error (.columnarFile .isDirectory)
  | .file (.bytes bs) =>
    match Columnar.read bs with
    | .error e => .error (.columnar e)
    | .ok s => .ok s.read
  | .file (.stored s) => .ok s.read

def notOpened (format : Format) (e : FileError) : LoadError :=
  match format with
  | .csv => .csvFile e
  | .json => .io e
  | .parquet => .io e

def node : Format → Node → Except LoadError Table
  | .csv => csv
  | .json => json
  | .parquet => columnar

def opened (p : Path) (found : Except FileError Node) : Except LoadError Table :=
  match found with
  | .error e => .error (notOpened (.ofPath p) e)
  | .ok n => node (.ofPath p) n

end Load

def FileSystem.load (fs : FileSystem) (p : Path) : Except LoadError Table :=
  Load.opened p (fs.find p)

end TablePeek
