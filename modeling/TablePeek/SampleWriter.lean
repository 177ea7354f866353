import TablePeek.AccessLog
import TablePeek.Preview

set_option autoImplicit false

namespace TablePeek.SampleWriter

open CommandLine (Command Environment Matches Problem)

def defaultOutput : String := "./data/sample_access_logs.parquet"

def command : Command where
  name := "generate-sample"
  version := "0.1.0"
  about := "Load a columnar data file and print a preview of it to the console"
  positional := ⟨"output", none, .path, "Output file", none, some defaultOutput⟩
  options := [
    ⟨"rows", some 'n', .count, "Number of log records", none, some "20"⟩,
    ⟨"seed", none, .count, "PRNG seed", none, some "42"⟩,
    .help, .version]

structure Arguments where
  output : Path
  rows : UInt64
  seed : UInt64
deriving DecidableEq, Repr

namespace Arguments

def ofMatches (m : Matches) : Arguments := ⟨m.path "output", m.count "rows", m.count "seed"⟩

def parse (env : Environment) (arguments : List Utf8.Bytes) : Except Problem Arguments :=
  (command.parse env arguments).map ofMatches

end Arguments

inductive Error where
  | creating (path : Path) (e : FileError)
  | writing (e : WriteError)
deriving DecidableEq, Repr

namespace Error

def context : Error → String
  | .creating path _ => "creating " ++ Utf8.toStringLossy path
  | .writing e => e.context

def cause : Error → String
  | .creating _ e => e.message
  | .writing e => e.cause

def report (e : Error) : String :=
  "Error: " ++ e.context ++ "\n\nCaused by:\n    " ++ e.cause ++ "\n"

end Error

def makeParent (fs : FileSystem) (p : Path) : FileSystem × Except Error Unit :=
  match p.parent? with
  | none => (fs, .ok ())
  | some d =>
    let (fs, result) := fs.makeDirectories d
    (fs, result.mapError (.creating d))

def replace (fs : FileSystem) (p : Path) (c : Content) : FileSystem := (fs.write p c).toOption.getD fs

theorem replace_written {fs full : FileSystem} {p : Path} {c : Content} (written : fs.write p c = .ok full) :
    replace fs p c = full := by
  rw [replace, written]
  rfl

-- A table that cannot be written leaves a file with the mark that files begin with. Groups of rows that were full before
-- it failed, of a million rows each, are left out.
def writeTable (fs : FileSystem) (p : Path) (t : Table) : FileSystem × Except Error Unit :=
  match fs.write p (.bytes []) with
  | .error e => (fs, .error (.creating p e))
  | .ok emptied =>
    match t.write with
    | .error e => (replace emptied p (.bytes Columnar.plainMark), .error (.writing e))
    | .ok s => (replace emptied p (.stored s), .ok ())

def run (a : Arguments) (fs : FileSystem) : FileSystem × Except Error Unit :=
  match makeParent fs a.output with
  | (fs, .error e) => (fs, .error e)
  | (fs, .ok ()) => writeTable fs a.output (AccessLog.table a.rows.toNat a.seed)

def success (a : Arguments) : String :=
  "Wrote " ++ toString a.rows.toNat ++ " access log records to " ++ Utf8.toStringLossy a.output ++ "\n"

def process (env : Environment) (arguments : List Utf8.Bytes) (fs : FileSystem) :
    FileSystem × Outcome :=
  match Arguments.parse env arguments with
  | .error p => (fs, .ofProblem command env p)
  | .ok a =>
    match run a fs with
    | (fs, .ok ()) => (fs, ⟨0, Utf8.encodeString (success a), []⟩)
    | (fs, .error e) => (fs, ⟨1, [], Utf8.encodeString e.report⟩)

end TablePeek.SampleWriter
