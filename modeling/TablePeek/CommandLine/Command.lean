import TablePeek.Text.Utf8

set_option autoImplicit false

namespace TablePeek.CommandLine

abbrev Bytes := Utf8.Bytes

abbrev Environment := List (String × Bytes)

inductive ArgumentKind where
  | path
  | count
  | flag
  | help
  | version
deriving DecidableEq, Repr

structure Argument where
  name : String
  short : Option Char
  kind : ArgumentKind
  about : String
  variableName : Option String
  default : Option String
deriving DecidableEq, Repr

namespace Argument

def help : Argument := ⟨"help", some 'h', .help, "Print help", none, none⟩

def version : Argument := ⟨"version", some 'V', .version, "Print version", none, none⟩

def takesValue (a : Argument) : Bool := a.kind = .path || a.kind = .count

def placeholder (a : Argument) : String := a.name.map Char.toUpper

def spelling (a : Argument) : String :=
  "--" ++ a.name ++ (if a.takesValue then " <" ++ a.placeholder ++ ">" else "")

end Argument

structure Command where
  name : String
  version : String
  about : String
  positional : Argument
  options : List Argument
deriving DecidableEq, Repr

namespace Command

def arguments (c : Command) : List Argument := c.positional :: c.options

def isPositional (c : Command) (a : Argument) : Bool := a.name = c.positional.name

def label (c : Command) (a : Argument) : String :=
  if c.isPositional a then "[" ++ a.placeholder ++ "]" else a.spelling

def usage (c : Command) : String :=
  "Usage: " ++ c.name ++ " [OPTIONS] [" ++ c.positional.placeholder ++ "]"

def usageOf (c : Command) (used : List Argument) : String :=
  if used.isEmpty then c.usage
  else
    let options := (used.filter fun a => !c.isPositional a).eraseDups
    let place := c.positional.placeholder
    "Usage: " ++ c.name ++ String.join (options.map fun a => " " ++ a.spelling) ++
      (if used.any c.isPositional then " <" ++ place ++ ">" else " [" ++ place ++ "]")

def variableNote (env : Environment) (a : Argument) : String :=
  match a.variableName with
  | none => ""
  | some v => " [env: " ++ v ++ "=" ++ Utf8.toStringLossy ((env.lookup v).getD []) ++ "]"

def defaultNote (a : Argument) : String :=
  match a.default with
  | none => ""
  | some d => " [default: " ++ d ++ "]"

def spaces (n : Nat) : String := String.ofList (List.replicate n ' ')

def hang (indent : Nat) (s : String) : String :=
  String.ofList (s.toList.flatMap fun c => if c = '\n' then '\n' :: List.replicate indent ' ' else [c])

def helpLine (env : Environment) (width : Nat) (left : String) (a : Argument) : String :=
  "  " ++ left ++ spaces (width - left.length) ++ "  " ++
    hang (width + 4) (a.about ++ variableNote env a ++ defaultNote a) ++ "\n"

def bothSpellings (a : Argument) : String :=
  match a.short with
  | none => "    " ++ a.spelling
  | some s => "-" ++ String.singleton s ++ ", " ++ a.spelling

def helpText (c : Command) (env : Environment) : String :=
  let place := c.label c.positional
  let lefts := c.options.map bothSpellings
  let width := (lefts.map String.length).foldl max 0
  c.about ++ "\n\n" ++ c.usage ++ "\n\nArguments:\n" ++ helpLine env place.length place c.positional ++
    "\nOptions:\n" ++ String.join (c.options.map fun a => helpLine env width (bothSpellings a) a)

def versionText (c : Command) : String := c.name ++ " " ++ c.version ++ "\n"

end Command

end TablePeek.CommandLine
