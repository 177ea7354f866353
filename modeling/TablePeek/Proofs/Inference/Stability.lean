import Mathlib.Data.List.Perm.Basic
import TablePeek.Proofs.Inference.Entries

set_option autoImplicit false

namespace TablePeek

section Pick

variable {α β : Type}

def pick (order : List Nat) (xs : List α) : List α := order.filterMap fun i => xs[i]?

theorem pick_map (f : α → β) (order : List Nat) (xs : List α) : pick order (xs.map f) = (pick order xs).map f := by
  rw [pick, pick, List.map_filterMap]
  exact List.filterMap_congr fun i _ => List.getElem?_map

theorem pick_all (xs : List α) : pick (List.range xs.length) xs = xs := by
  induction xs with
  | nil => rfl
  | cons x rest ih =>
    rw [List.length_cons, List.range_succ_eq_map, pick, List.filterMap_cons, List.getElem?_cons_zero,
      List.filterMap_map]
    exact congrArg (x :: ·) ih

theorem pick_perm (order : List Nat) (xs : List α) (every : order.Perm (List.range xs.length)) :
    (pick order xs).Perm xs := by
  have reordered : (pick order xs).Perm (pick (List.range xs.length) xs) := every.filterMap _
  rwa [pick_all] at reordered

end Pick

section Spread

variable {α β : Type}

-- Items that the pattern does not reach come behind it.
def spread (blank : α) : List Bool → List α → List α
  | [], xs => xs
  | true :: gaps, xs => blank :: spread blank gaps xs
  | false :: gaps, [] => spread blank gaps []
  | false :: gaps, x :: xs => x :: spread blank gaps xs

theorem spread_map (f : α → β) (blank : α) (gaps : List Bool) (xs : List α) :
    (spread blank gaps xs).map f = spread (f blank) gaps (xs.map f) := by
  induction gaps generalizing xs with
  | nil => rfl
  | cons gap gaps ih =>
    cases gap with
    | true => rw [spread, List.map_cons, ih, spread]
    | false =>
      cases xs with
      | nil => exact ih []
      | cons x xs => rw [spread, List.map_cons, ih, List.map_cons, spread]

theorem mem_spread (blank : α) (gaps : List Bool) (xs : List α) (x : α) (value : x ≠ blank) :
    x ∈ spread blank gaps xs ↔ x ∈ xs := by
  induction gaps generalizing xs with
  | nil => exact Iff.rfl
  | cons gap gaps ih =>
    cases gap with
    | true => rw [spread, List.mem_cons, ih, or_iff_right value]
    | false =>
      cases xs with
      | nil => exact ih []
      | cons y xs => rw [spread, List.mem_cons, List.mem_cons, ih]

end Spread

namespace Column

def pick (order : List Nat) (c : Column) : Column := ⟨c.type, TablePeek.pick order c.entries⟩

def spread (gaps : List Bool) (c : Column) : Column := ⟨c.type, TablePeek.spread none gaps c.entries⟩

end Column

namespace ColumnType

def cell : (t : ColumnType) → t.Entry → Cell
  | .text, s => .text s
  | .boolean, b => .bool b
  | .int64, i => .integer i
  | .int32, i => .integer i.toInt64
  | .float64, x => .float x
  | .timestamp, i => .integer i

end ColumnType

def Column.cells (c : Column) : List Cell := c.entries.map fun e => (e.map c.type.cell).getD .null

section Changes

variable (cells : List Cell)

theorem infer_pick (order : List Nat) (every : order.Perm (List.range cells.length)) :
    Column.infer (pick order cells) = (Column.infer cells).pick order := by
  have kind : Kind.ofCells (pick order cells) = Kind.ofCells cells :=
    Kind.of_cells_congr _ _ fun _ _ => (pick_perm order cells every).mem_iff
  rw [Kind.infer_of_kind, Kind.infer_of_kind, kind, Column.pick, pick_map]

theorem infer_spread (gaps : List Bool) :
    Column.infer (spread .null gaps cells) = (Column.infer cells).spread gaps := by
  have kind : Kind.ofCells (spread .null gaps cells) = Kind.ofCells cells :=
    Kind.of_cells_congr _ _ fun c value => mem_spread _ gaps cells c value
  rw [Kind.infer_of_kind, Kind.infer_of_kind, kind, Column.spread, spread_map, Kind.entry_null]

namespace Kind

def readBack (k : Kind) (c : Cell) : Cell := ((k.entry c).map k.columnType.cell).getD .null

theorem read_back_null (k : Kind) : k.readBack .null = .null := by
  rw [readBack, entry_null]
  rfl

theorem read_back_value (k : Kind) (c : Cell) (fits : ofCell c ≤ k) (value : c ≠ .null) :
    ofCell (k.readBack c) = k ∧ k.entry (k.readBack c) = k.entry c := by
  cases k with
  | null => exact absurd ((kind_le_null c).mp fits) value
  | text => cases c <;> first | exact ⟨rfl, rfl⟩ | exact absurd rfl value
  | bool =>
    obtain ⟨b, rfl⟩ := ((kind_le_bool c).mp fits).resolve_left value
    exact ⟨rfl, rfl⟩
  | integer =>
    obtain ⟨i, rfl⟩ := ((kind_le_integer c).mp fits).resolve_left value
    exact ⟨rfl, rfl⟩
  | float =>
    obtain ⟨i, rfl⟩ | ⟨x, rfl⟩ := ((kind_le_float c).mp fits).resolve_left value
    · exact ⟨rfl, rfl⟩
    · exact ⟨rfl, rfl⟩

theorem kind_read_back : ofCells (cells.map (ofCells cells).readBack) = ofCells cells := by
  have fits := fits_own cells
  refine le_antisymm ((of_cells_le _ _).mpr ?_) ((of_cells_le cells _).mpr fun c member => ?_)
  · rw [List.forall_mem_map]
    intro c member
    by_cases null : c = .null
    · rw [null, read_back_null]
      exact bot_le
    · exact (read_back_value _ c (fits c member) null).1.le
  · by_cases null : c = .null
    · rw [null]
      exact bot_le
    · have below := fits_own _ _ (List.mem_map_of_mem (f := (ofCells cells).readBack) member)
      rw [(read_back_value _ c (fits c member) null).1] at below
      exact (fits c member).trans below

end Kind

theorem infer_read_back : Column.infer (Column.infer cells).cells = Column.infer cells := by
  have cellsBack : (Column.infer cells).cells = cells.map (Kind.ofCells cells).readBack := by
    rw [Kind.infer_of_kind, Column.cells, List.map_map]
    rfl
  have entriesBack : (cells.map (Kind.ofCells cells).readBack).map (Kind.ofCells cells).entry =
      cells.map (Kind.ofCells cells).entry := by
    rw [List.map_map]
    apply List.map_congr_left
    intro c member
    by_cases null : c = .null
    · rw [null, Function.comp_apply, Kind.read_back_null]
    · exact (Kind.read_back_value _ c (Kind.fits_own cells c member) null).2
  rw [cellsBack, Kind.infer_of_kind, Kind.kind_read_back, entriesBack, ← Kind.infer_of_kind]

theorem kind_of_parts (more : List Cell) :
    IsLUB {Kind.ofCells cells, Kind.ofCells more} (Kind.ofCells (cells ++ more)) := by
  rw [Kind.of_cells_append]
  exact isLUB_pair

/-- Cells in another order give the column in that order, nulls between them give nulls there and nothing else,
a column read back as cells gives that column, and cells in chunks give the type that is least above the chunks'. -/
theorem inference_stable :
    (∀ order : List Nat, order.Perm (List.range cells.length) →
      Column.infer (pick order cells) = (Column.infer cells).pick order) ∧
    (∀ gaps : List Bool, Column.infer (spread .null gaps cells) = (Column.infer cells).spread gaps) ∧
    Column.infer (Column.infer cells).cells = Column.infer cells ∧
    (∀ more : List Cell, IsLUB {Kind.ofCells cells, Kind.ofCells more} (Kind.ofCells (cells ++ more)) ∧
      (Column.infer (cells ++ more)).type = (Kind.ofCells cells ⊔ Kind.ofCells more).columnType) ∧
    ∀ chunks : List (List Cell), chunks.flatten = cells →
      (Column.infer cells).type = ((chunks.map Kind.ofCells).foldl Kind.join .null).columnType := by
  refine ⟨infer_pick cells, infer_spread cells, infer_read_back cells, fun more => ⟨kind_of_parts cells more, ?_⟩, ?_⟩
  · rw [infer_type, Kind.of_cells_append]
  · rintro chunks rfl
    rw [infer_type, Kind.of_cells_flatten]

end Changes

theorem mixed_cells_stable :
    let cells : List Cell := [.integer 2, .null, .float (.zero true)]
    Column.infer (pick [2, 0, 1] cells) = (Column.infer cells).pick [2, 0, 1] ∧
      (Column.infer cells).type = .float64 := by
  intro cells
  have reordered := (inference_stable cells).1 [2, 0, 1] (by decide)
  have chunked := (inference_stable cells).2.2.2.2 [[.integer 2], [.null, .float (.zero true)]] rfl
  exact ⟨reordered, chunked⟩

end TablePeek
