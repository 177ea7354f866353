import TablePeek.CommandLine.Command
import TablePeek.CommandLine.Count
import TablePeek.CommandLine.Printable

set_option autoImplicit false

namespace TablePeek.CommandLine

inductive Problem where
  | help
  | version
  | valueRequired (a : Argument)
  | invalidCount (a : Argument) (value : String) (fault : CountFault)
  | notText
  | repeated (a : Argument)
  | valueNotTaken (a : Argument) (value : Bytes) (used : List Argument)
  | unknownLong (name : String) (meant : Option Argument) (used : List Argument)
  | unknownShort (spelling : String)
  | unexpected (value : Bytes)
deriving DecidableEq, Repr

namespace Problem

def kind : Problem → String
  | .help => "DisplayHelp"
  | .version => "DisplayVersion"
  | .valueRequired _ => "InvalidValue"
  | .invalidCount _ _ _ => "ValueValidation"
  | .notText => "InvalidUtf8"
  | .repeated _ => "ArgumentConflict"
  | .valueNotTaken _ _ _ => "TooManyValues"
  | .unknownLong _ _ _ => "UnknownArgument"
  | .unknownShort _ => "UnknownArgument"
  | .unexpected _ => "UnknownArgument"

def isRequest : Problem → Bool
  | .help => true
  | .version => true
  | _ => false

def exitCode (p : Problem) : Nat := if p.isRequest then 0 else 2

def invite : String := "For more information, try '--help'.\n"

def report (paragraphs : List String) : String :=
  "error: " ++ String.intercalate "\n\n" (paragraphs ++ [invite])

def unexpectedText (spelling : String) : String := "unexpected argument '" ++ spelling ++ "' found"

def escapeTip (spelling : String) : String :=
  "  tip: to pass '" ++ spelling ++ "' as a value, use '-- " ++ spelling ++ "'"

def rawMessage (c : Command) (env : Environment) : Problem → String
  | .help => c.helpText env
  | .version => c.versionText
  | .valueRequired a =>
    report ["a value is required for '" ++ c.label a ++ "' but none was supplied"]
  | .invalidCount a value fault =>
    report ["invalid value '" ++ value ++ "' for '" ++ c.label a ++ "': " ++ fault.message]
  | .notText => report ["invalid UTF-8 was detected in one or more arguments", c.usage]
  | .repeated a =>
    report ["the argument '" ++ c.label a ++ "' cannot be used multiple times", c.usage]
  | .valueNotTaken a value used =>
    report ["unexpected value '" ++ Utf8.toStringLossy value ++ "' for '" ++ c.label a ++
      "' found; no more were expected", c.usageOf used]
  | .unknownLong name meant used =>
    let spelling := "--" ++ name
    let tip :=
      match meant with
      | some a => "  tip: a similar argument exists: '--" ++ a.name ++ "'"
      | none => escapeTip spelling
    report [unexpectedText spelling, tip, c.usageOf used]
  | .unknownShort spelling => report [unexpectedText spelling, escapeTip spelling, c.usage]
  | .unexpected value => report [unexpectedText (Utf8.toStringLossy value), c.usage]

def message (c : Command) (env : Environment) (p : Problem) : String := printable (p.rawMessage c env)

end Problem

end TablePeek.CommandLine
