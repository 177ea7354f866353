import TablePeek.Preview

set_option autoImplicit false

namespace TablePeek.Main

open CommandLine (Environment)

def fileError : IO.Error → FileError
  | .noFileOrDirectory _ _ _ => .notFound
  | .inappropriateType _ _ _ => .notDirectory
  | .invalidArgument _ code _ => if code = 22 then .nulInPath else .nameTooLong
  | .permissionDenied _ _ _ => .other "Permission denied (os error 13)"
  | e => .other (toString e)

def find (path : String) : IO (Except FileError Node) := do
  try
    let bytes ← IO.FS.readBinFile path
    return .ok (.file (.bytes bytes.toList))
  catch
    | .inappropriateType none _ _ => return .ok .directory
    | e => return .error (fileError e)

def environment : IO Environment := do
  let names := Preview.command.arguments.filterMap CommandLine.Argument.variableName
  names.filterMapM fun name => do
    let value ← IO.getEnv name
    return value.map fun v => (name, Utf8.encodeString v)

def finish (o : Outcome) : IO UInt32 := do
  (← IO.getStdout).write (ByteArray.mk o.output.toArray)
  (← IO.getStderr).write (ByteArray.mk o.errors.toArray)
  return UInt32.ofNat o.exit

end TablePeek.Main

open TablePeek in
def main (arguments : List String) : IO UInt32 := do
  let env ← Main.environment
  match Preview.Arguments.parse env (arguments.map Utf8.encodeString) with
  | .error p => Main.finish (.ofProblem Preview.command env p)
  | .ok a => Main.finish (Preview.outcome a (← Main.find (Utf8.toStringLossy a.path)))
