import TablePeek.CommandLine.Problem
import TablePeek.CommandLine.Similar

set_option autoImplicit false

namespace TablePeek.CommandLine

inductive Value where
  | path (p : Bytes)
  | count (n : UInt64)
  | given
deriving DecidableEq, Repr

abbrev Matches := List (String × Value)

namespace Matches

def path (m : Matches) (name : String) : Bytes :=
  match m.lookup name with
  | some (.path p) => p
  | _ => []

def count (m : Matches) (name : String) : UInt64 :=
  match m.lookup name with
  | some (.count n) => n
  | _ => 0

def isGiven (m : Matches) (name : String) : Bool := m.lookup name = some .given

end Matches

structure Pending where
  argument : Argument
  value : Option Bytes
deriving DecidableEq, Repr

structure Scan where
  -- Two dashes were met: what follows stands alone, whatever it looks like.
  trailing : Bool
  pending : Option Pending
  used : List Argument
  values : Matches
deriving DecidableEq, Repr

def Argument.read (a : Argument) (bs : Bytes) : Except Problem Value :=
  match a.kind with
  | .path => if bs.isEmpty then .error (.valueRequired a) else .ok (.path bs)
  | .count =>
    match Utf8.decode? bs with
    | none => .error .notText
    | some cs =>
      match readCount cs with
      | .ok n => .ok (.count n)
      | .error fault => .error (.invalidCount a (String.ofList cs) fault)
  | _ => .ok .given

namespace Scan

def start : Scan := ⟨false, none, [], []⟩

def hasUsed (s : Scan) (a : Argument) : Bool := s.used.any fun u => u.name = a.name

-- A value that fails its check still counts; an argument met twice does not count at all.
def give (s : Scan) (a : Argument) (value : Option Bytes) : Scan × Except Problem Unit :=
  if a.takesValue && value.isNone then (s, .error (.valueRequired a))
  else if s.hasUsed a then
    ({ s with used := s.used.filter fun u => u.name ≠ a.name }, .error (.repeated a))
  else
    let s := { s with used := s.used ++ [a] }
    match a.read (value.getD []) with
    | .error p => (s, .error p)
    | .ok v => ({ s with values := s.values ++ [(a.name, v)] }, .ok ())

def settle (s : Scan) : Scan × Except Problem Unit :=
  match s.pending with
  | none => (s, .ok ())
  | some p => { s with pending := none }.give p.argument p.value

def settled (s : Scan) (next : Scan → Except Problem Scan) : Except Problem Scan :=
  match s.settle with
  | (_, .error p) => .error p
  | (s, .ok ()) => next s

def take (a : Argument) (value : Option Bytes) (s : Scan) : Except Problem Scan :=
  match s.give a value with
  | (_, .error p) => .error p
  | (s, .ok ()) => .ok s

def flag (a : Argument) (s : Scan) : Except Problem Scan :=
  match a.kind with
  | .help => .error .help
  | .version => .error .version
  | _ => s.take a none

def wait (a : Argument) (value : Option Bytes) (s : Scan) : Except Problem Scan :=
  .ok { s with pending := some ⟨a, value⟩ }

def option (a : Argument) (value : Option Bytes) (s : Scan) : Except Problem Scan :=
  match value with
  | some v => s.settled (take a (some v))
  | none => s.settled (wait a none)

def standing (c : Command) (s : Scan) (value : Bytes) : Except Problem Scan :=
  let isPositional (p : Pending) : Bool := c.isPositional p.argument
  if s.hasUsed c.positional || s.pending.any isPositional then .error (.unexpected value)
  else s.settled (wait c.positional (some value))

def unknownLong (c : Command) (s : Scan) (name : String) : Problem :=
  let used := s.settle.1.used
  match Likeness.closest name.toList (fun a => a.name.toList) c.options with
  | some a => .unknownLong name (some a) (used ++ [a])
  | none => .unknownLong name none used

def long (c : Command) (s : Scan) (name : Bytes) (value : Option Bytes) : Except Problem Scan :=
  let spelled := Utf8.toStringLossy name
  match (Utf8.decode? name).bind fun cs => c.options.find? fun a => a.name.toList = cs with
  | none => .error (s.unknownLong c spelled)
  | some a =>
    if a.takesValue then s.option a value
    else
      match value with
      | some v => .error (.valueNotTaken a v (s.used ++ [a]))
      | none => s.settled (flag a)

def equalsSign : UInt8 := 0x3D

def restValue : Bytes → Option Bytes
  | [] => none
  | b :: rest => some (if b = equalsSign then rest else b :: rest)

def short (c : Command) (broken : Bytes) (s : Scan) : List Char → Except Problem Scan
  | [] => if broken.isEmpty then .ok s else .error (.unknownShort ("-" ++ Utf8.toStringLossy broken))
  | letter :: rest =>
    match c.options.find? fun a => a.short = some letter with
    | none => .error (.unknownShort ("-" ++ String.singleton letter))
    | some a =>
      if a.takesValue then s.option a (restValue (Utf8.encode rest ++ broken))
      else
        match s.settled (flag a) with
        | .error p => .error p
        | .ok s => short c broken s rest

inductive Shape where
  | escape
  | long (name : Bytes) (value : Option Bytes)
  | short (letters : Bytes)
  | plain

def dash : UInt8 := 0x2D

def splitLong (bs : Bytes) : Shape :=
  match bs.dropWhile (· ≠ equalsSign) with
  | [] => .long bs none
  | _ :: value => .long (bs.takeWhile (· ≠ equalsSign)) (some value)

def shape : Bytes → Shape
  | 0x2D :: 0x2D :: [] => .escape
  | 0x2D :: 0x2D :: rest => splitLong rest
  | 0x2D :: b :: rest => .short (b :: rest)
  | _ => .plain

def awaiting? (s : Scan) : Option Argument :=
  match s.pending with
  | some ⟨a, none⟩ => some a
  | _ => none

def step (c : Command) (s : Scan) (argument : Bytes) : Except Problem Scan :=
  if s.trailing then s.standing c argument
  else
    match shape argument with
    | .escape => .ok { s with trailing := true }
    | .long name value => s.long c name value
    | .short letters =>
      let (cs, broken) := Utf8.decodePrefix letters
      s.short c broken cs
    | .plain =>
      match s.awaiting? with
      | some a => s.wait a (some argument)
      | none => s.standing c argument

def steps (c : Command) (s : Scan) : List Bytes → Except Problem Scan
  | [] => s.settled .ok
  | a :: rest =>
    match s.step c a with
    | .error p => .error p
    | .ok s => s.steps c rest

def fromEnvironment (env : Environment) (s : Scan) : List Argument → Except Problem Scan
  | [] => .ok s
  | a :: rest =>
    match a.variableName.bind fun v => env.lookup v with
    | none => fromEnvironment env s rest
    | some value =>
      if s.hasUsed a then fromEnvironment env s rest
      else
        match s.take a (some value) with
        | .error p => .error p
        | .ok s => fromEnvironment env s rest

def fromDefaults (s : Scan) (arguments : List Argument) : Matches :=
  s.values ++ arguments.filterMap fun a =>
    if s.hasUsed a then none
    else a.default.bind fun d => ((a.read (Utf8.encodeString d)).toOption.map fun v => (a.name, v))

end Scan

def Command.parse (c : Command) (env : Environment) (arguments : List Bytes) :
    Except Problem Matches :=
  match Scan.start.steps c arguments with
  | .error p => .error p
  | .ok s =>
    match s.fromEnvironment env c.arguments with
    | .error p => .error p
    | .ok s => .ok (s.fromDefaults c.arguments)

end TablePeek.CommandLine
