import TablePeek.Grid.Wrap
import TablePeek.Table

set_option autoImplicit false

namespace TablePeek

-- A row may have fewer cells than the widest one, and so may the header.
structure Grid where
  header : List String
  rows : List (List String)
deriving DecidableEq, Repr

namespace Grid

abbrev Line := List Char

def maxWidth : Nat := 65535

def transpose : Nat → List (List String) → List (List String)
  | 0, _ => []
  | n + 1, columns => columns.map (fun c => c.headD "") :: transpose n (columns.map List.tail)

def ofBatch (b : Batch) : List (List String) := transpose b.rows (b.columns.map Column.texts)

-- The header comes from the first batch, whatever the others are called.
def ofBatches (batches : List Batch) : Grid :=
  { header := (batches.head?.map fun b => b.schema.map Field.name).getD []
    rows := batches.flatMap ofBatch }

def cellLines (s : String) : List Line := List.splitOn '\n' s.toList

def cellWidth (s : String) : Nat := ((cellLines s).map Width.ofText).foldl max 0

def maxWidths : List Nat → List Nat → List Nat
  | [], ws => ws
  | vs, [] => vs
  | v :: vs, w :: ws => max v w :: maxWidths vs ws

def widths (g : Grid) : List Nat :=
  let widest := (g.header :: g.rows).foldl (fun ws row => maxWidths ws (row.map cellWidth)) []
  widest.map fun w => max 1 (min maxWidth w)

def padded (width : Nat) : Nat := min maxWidth (width + 2)

def pad (width : Nat) (line : Line) : Line :=
  ' ' :: line ++ List.replicate (width - Width.ofText line) ' ' ++ [' ']

def block (width : Nat) (s : String) : List Line :=
  ((cellLines s).flatMap (Wrap.fold width)).map (pad width)

def blocks : List Nat → List String → List (Nat × List Line)
  | [], _ => []
  | w :: ws, [] => (w, []) :: blocks ws []
  | w :: ws, s :: cells => (w, block w s) :: blocks ws cells

def height : List (Nat × List Line) → Nat
  | [] => 0
  | bs => (bs.map fun b => b.2.length).foldl max 1

def enclose (edge : Char) (parts : List Line) : Line :=
  edge :: [edge].intercalate parts ++ [edge]

def rowLinesFrom : Nat → List (Nat × List Line) → List Line
  | 0, _ => []
  | n + 1, bs =>
    enclose '|' (bs.map fun b => b.2.headD (List.replicate (padded b.1) ' ')) ::
      rowLinesFrom n (bs.map fun b => (b.1, b.2.tail))

def rowLines (ws : List Nat) (cells : List String) : List Line :=
  let bs := blocks ws cells
  rowLinesFrom (height bs) bs

def border (ws : List Nat) : Line := enclose '+' (ws.map fun w => List.replicate (padded w) '-')

def lines (g : Grid) : List Line :=
  let ws := g.widths
  let edge := border ws
  edge :: rowLines ws g.header ++ edge :: g.rows.flatMap (rowLines ws) ++ [edge]

def toText (g : Grid) : List Char := ['\n'].intercalate g.lines

end Grid

end TablePeek
