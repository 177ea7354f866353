import TablePeek.Text.Utf8

set_option autoImplicit false

namespace TablePeek

abbrev Name := List UInt8

abbrev Path := List UInt8

namespace Name

def dot : UInt8 := 0x2E

def here : Name := [dot]

def up : Name := [dot, dot]

def isStill (n : Name) : Bool := n.isEmpty || n = here

def extension? (n : Name) : Option Name :=
  match List.splitOn dot n with
  | [] => none
  | [_] => none
  | [[], _] => none
  | first :: second :: rest => some ((second :: rest).getLastD first)

end Name

namespace Path

def slash : UInt8 := 0x2F

def parts (p : Path) : List Name := List.splitOn slash p

def isAbsolute (p : Path) : Bool := p.head? = some slash

def trimmed (names : List Name) : List Name := (names.reverse.dropWhile Name.isStill).reverse

def name? (p : Path) : Option Name := (trimmed p.parts).getLast?.filter (· ≠ Name.up)

def extension? (p : Path) : Option Name := p.name?.bind Name.extension?

def parent? (p : Path) : Option Path :=
  match p.parts with
  | [] => none
  | first :: rest =>
    match trimmed rest with
    | [] => none
    | body =>
      match trimmed body.dropLast with
      | [] => some (if first.isEmpty then [slash] else first)
      | around => some ([slash].intercalate (first :: around))

end Path

end TablePeek
