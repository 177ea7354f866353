set_option autoImplicit false

namespace TablePeek.CommandLine

inductive Reading where
  | text
  | escape
  | escapeCode
  | sequence
  | string (bell : Bool)
deriving DecidableEq, Repr

namespace Reading

def isControl (c : Char) : Bool := c.toNat < 0x20 || c.toNat = 0x7F

def isBlank (c : Char) : Bool := c = '\t' || c = '\n' || c = '\x0c' || c = '\r'

def between (c : Char) (low high : Nat) : Bool := low ≤ c.toNat && c.toNat ≤ high

def afterEscape (c : Char) : Reading :=
  if between c 0x20 0x2F then .escapeCode
  else if c = '[' then .sequence
  else if c = ']' then .string true
  else if c = 'P' || c = 'X' || c = '^' || c = '_' then .string false
  else .text

def step (r : Reading) (c : Char) : Reading × Bool :=
  if c = '\x1b' then (.escape, false)
  else if c = '\x18' || c = '\x1a' then (.text, false)
  else
    match r with
    | .string bell => (if bell && c = '\x07' then .text else .string bell, false)
    | .text => (.text, !isControl c || isBlank c)
    | r =>
      if isBlank c then (.text, true)
      else if isControl c then (r, false)
      else
        match r with
        | .escape => (afterEscape c, false)
        | .escapeCode => (if between c 0x20 0x2F then .escapeCode else .text, false)
        | _ => (if between c 0x20 0x3F then .sequence else .text, false)

def shown (r : Reading) : List Char → List Char
  | [] => []
  | c :: rest =>
    let (next, visible) := r.step c
    if visible then c :: shown next rest else shown next rest

end Reading

def printable (s : String) : String := String.ofList (Reading.text.shown s.toList)

end TablePeek.CommandLine
