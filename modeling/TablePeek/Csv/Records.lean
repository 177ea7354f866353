import TablePeek.Text.Position

set_option autoImplicit false

namespace TablePeek.Csv

open Utf8 (Bytes)

def comma : UInt8 := 0x2C

def quoteMark : UInt8 := 0x22

def carriageReturn : UInt8 := 0x0D

-- Lines are counted from one by line feeds, bytes from zero.
structure Mark where
  line : Nat
  byte : Nat
deriving DecidableEq, Repr

namespace Mark

def start : Mark := ⟨1, 0⟩

def advance (m : Mark) (b : UInt8) : Mark :=
  ⟨if b = Position.lineFeed then m.line + 1 else m.line, m.byte + 1⟩

def after (bs : Bytes) : Mark := bs.foldl advance start

end Mark

structure Record where
  mark : Mark
  fields : List Bytes
deriving DecidableEq, Repr

inductive State where
  | between
  | afterReturn
  | fieldStart
  | bare
  | quoted
  | quoteInQuoted
deriving DecidableEq, Repr

-- Bytes, fields and records are kept last one first.
structure Splitter where
  state : State
  here : Mark
  mark : Mark
  field : Bytes
  fields : List Bytes
  records : List Record
deriving DecidableEq, Repr

namespace Splitter

def start (skipped : Bytes) : Splitter := ⟨.between, .after skipped, .start, [], [], []⟩

def endsRecord (b : UInt8) : Bool := b = Position.lineFeed || b = carriageReturn

def push (s : Splitter) (state : State) (b : UInt8) : Splitter :=
  { s with state, field := b :: s.field }

def endField (s : Splitter) : Splitter :=
  { s with state := .fieldStart, field := [], fields := s.field.reverse :: s.fields }

def endRecord (s : Splitter) (state : State) : Splitter :=
  let s := s.endField
  { s with state, mark := s.here, fields := [], records := ⟨s.mark, s.fields.reverse⟩ :: s.records }

def outside (s : Splitter) (b : UInt8) : Splitter :=
  if b = comma then s.endField
  else if b = carriageReturn then s.endRecord .afterReturn
  else if b = Position.lineFeed then s.endRecord .between
  else s.push .bare b

def atField (s : Splitter) (b : UInt8) : Splitter :=
  if b = quoteMark then { s with state := .quoted } else s.outside b

def atRecord (s : Splitter) (b : UInt8) : Splitter :=
  if endsRecord b then { s with state := .between } else s.atField b

def step (before : Splitter) (b : UInt8) : Splitter :=
  let s := { before with here := before.here.advance b }
  match s.state with
  | .between => s.atRecord b
  | .afterReturn => s.atRecord b
  | .fieldStart => s.atField b
  | .bare => s.outside b
  | .quoted => if b = quoteMark then { s with state := .quoteInQuoted } else s.push .quoted b
  | .quoteInQuoted => if b = quoteMark then s.push .quoted b else s.outside b

def finish (s : Splitter) : List Record :=
  match s.state with
  | .between => s.records.reverse
  | .afterReturn => s.records.reverse
  | _ => (s.endRecord .between).records.reverse

end Splitter

def byteOrderMark : Bytes := [0xEF, 0xBB, 0xBF]

def split (bs : Bytes) : List Record :=
  match bs with
  | 0xEF :: 0xBB :: 0xBF :: rest => (rest.foldl Splitter.step (.start byteOrderMark)).finish
  | bs => (bs.foldl Splitter.step (.start [])).finish

end TablePeek.Csv
