import TablePeek.Grid
import TablePeek.Text.Utf8

set_option autoImplicit false

namespace TablePeek

inductive Mode where
  | head (rows : Nat)
  | full
deriving DecidableEq, Repr

namespace Table

def shown (t : Table) : Mode → Table
  | .head n => t.head n
  | .full => t

-- Without batches the schema still gives the header.
def grid (t : Table) (mode : Mode) : Grid :=
  let shown := t.shown mode
  .ofBatches (if shown.batches.isEmpty then [.empty shown.schema] else shown.batches)

def render (t : Table) (mode : Mode) : List Char := (t.grid mode).toText

end Table

-- How many more bytes are taken is `room`: all, when nothing is said.
structure Sink where
  taken : Utf8.Bytes
  room : Option Nat
  flushFails : Bool
deriving DecidableEq, Repr

inductive SinkError where
  | write
  | flush
deriving DecidableEq, Repr

def SinkError.message : SinkError → String
  | .write => "broken pipe"
  | .flush => "broken pipe"

namespace Sink

def unlimited : Sink := ⟨[], none, false⟩

def write (s : Sink) (bs : Utf8.Bytes) : Sink × Except SinkError Unit :=
  match s.room with
  | none => ({ s with taken := s.taken ++ bs }, .ok ())
  | some room =>
    if bs.length ≤ room then
      ({ s with taken := s.taken ++ bs, room := some (room - bs.length) }, .ok ())
    else ({ s with taken := s.taken ++ bs.take room, room := some 0 }, .error .write)

def flush (s : Sink) : Sink × Except SinkError Unit :=
  (s, if s.flushFails then .error .flush else .ok ())

def writeAll (s : Sink) : List Utf8.Bytes → Sink × Except SinkError Unit
  | [] => s.flush
  | bs :: rest =>
    match s.write bs with
    | (s, .ok ()) => s.writeAll rest
    | failed => failed

end Sink

namespace Document

def divider : List Char := List.replicate 36 '-'

def pieces (t : Table) (mode : Mode) : List (List Char) :=
  [divider ++ ['\n'], t.render mode ++ ['\n'], '\n' :: divider ++ ['\n']]

def toText (t : Table) (mode : Mode) : List Char := (pieces t mode).flatten

def print (t : Table) (mode : Mode) (s : Sink) : Sink × Except SinkError Unit :=
  s.writeAll ((pieces t mode).map Utf8.encode)

end Document

end TablePeek
