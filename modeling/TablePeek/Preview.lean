import TablePeek.CommandLine.Scan
import TablePeek.Document
import TablePeek.Load

set_option autoImplicit false

namespace TablePeek

structure Outcome where
  exit : Nat
  output : Utf8.Bytes
  errors : Utf8.Bytes
deriving DecidableEq, Repr

def Outcome.ofProblem (c : CommandLine.Command) (env : CommandLine.Environment)
    (p : CommandLine.Problem) : Outcome :=
  let text := Utf8.encodeString (p.message c env)
  if p.isRequest then ⟨p.exitCode, text, []⟩ else ⟨p.exitCode, [], text⟩

namespace Preview

open CommandLine (Command Environment Matches Problem)

def defaultPath : String := "./data/0198b15b-938b-7220-a91c-291b0bad0de9.parquet"

def command : Command where
  name := "parquet-preview"
  version := "0.1.0"
  about := "Load a columnar data file and print a preview of it to the console"
  positional := ⟨"path", none, .path, "File to load (.parquet, .csv or .json)",
    some "PARQUET_PREVIEW_PATH", some defaultPath⟩
  options := [
    ⟨"rows", some 'n', .count, "Number of leading rows to show", some "PARQUET_PREVIEW_ROWS", some "5"⟩,
    ⟨"full", none, .flag, "Print every row instead of a preview", none, none⟩,
    .help, .version]

structure Arguments where
  path : Path
  rows : UInt64
  full : Bool
deriving DecidableEq, Repr

namespace Arguments

def ofMatches (m : Matches) : Arguments := ⟨m.path "path", m.count "rows", m.isGiven "full"⟩

-- All rows win over a number of rows.
def mode (a : Arguments) : Mode := if a.full then .full else .head a.rows.toNat

def parse (env : Environment) (arguments : List Utf8.Bytes) : Except Problem Arguments :=
  (command.parse env arguments).map ofMatches

end Arguments

inductive Error where
  | load (path : Path) (e : LoadError)
  | sink (e : SinkError)
deriving DecidableEq, Repr

def Error.message : Error → String
  | .load path e =>
    String.intercalate ": " (("failed to load " ++ Utf8.toStringLossy path) :: e.chain)
  | .sink e => e.message

-- Nothing is printed of a table that does not load.
def display (a : Arguments) (found : Except FileError Node) (s : Sink) : Sink × Except Error Unit :=
  match Load.opened a.path found with
  | .error e => (s, .error (.load a.path e))
  | .ok t =>
    match Document.print t a.mode s with
    | (s, .ok ()) => (s, .ok ())
    | (s, .error e) => (s, .error (.sink e))

def run (a : Arguments) (fs : FileSystem) (s : Sink) : Sink × Except Error Unit :=
  display a (fs.find a.path) s

def outcome (a : Arguments) (found : Except FileError Node) : Outcome :=
  match display a found .unlimited with
  | (s, .ok ()) => ⟨0, s.taken, []⟩
  | (s, .error e) => ⟨1, s.taken ++ Utf8.encodeString ("error: " ++ e.message ++ "\n"), []⟩

-- Log records, which go where the errors go if RUST_LOG asks for them, are left out.
def process (env : Environment) (arguments : List Utf8.Bytes) (fs : FileSystem) : Outcome :=
  match Arguments.parse env arguments with
  | .error p => .ofProblem command env p
  | .ok a => outcome a (fs.find a.path)

end Preview

end TablePeek
