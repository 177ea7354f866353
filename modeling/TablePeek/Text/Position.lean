import TablePeek.Text.Utf8

set_option autoImplicit false

namespace TablePeek

structure Position where
  line : Nat
  column : Nat
deriving DecidableEq, Repr

namespace Position

def start : Position := ⟨1, 0⟩

def lineFeed : UInt8 := 0x0A

def advance (p : Position) (b : UInt8) : Position :=
  if b = lineFeed then ⟨p.line + 1, 0⟩ else ⟨p.line, p.column + 1⟩

def after (bs : Utf8.Bytes) : Position := bs.foldl advance start

end Position

end TablePeek
