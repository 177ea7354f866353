import Mathlib.Data.List.Basic
import TablePeek.Proofs.Columns
import TablePeek.Proofs.Inference.Kinds
import TablePeek.Proofs.Number.Nearest
import TablePeek.Proofs.Table.Rows

set_option autoImplicit false

namespace TablePeek

namespace Kind

def columnType : Kind → ColumnType
  | .integer => .int64
  | .float => .float64
  | .bool => .boolean
  | .text => .text
  | .null => .text

def entry : (k : Kind) → Cell → Option k.columnType.Entry
  | .integer => Cell.asInteger?
  | .float => Cell.asFloat?
  | .bool => Cell.asBool?
  | .text => Cell.asText?
  | .null => Cell.asText?

theorem infer_of_kind (cells : List Cell) :
    Column.infer cells = ⟨(ofCells cells).columnType, cells.map (ofCells cells).entry⟩ := by
  rw [Column.infer]
  cases ofCells cells <;> rfl

theorem entry_null (k : Kind) : k.entry .null = none := by cases k <;> rfl

theorem entry_none (k : Kind) (c : Cell) (fits : ofCell c ≤ k) : k.entry c = none ↔ c = .null := by
  refine ⟨fun none => ?_, fun null => null ▸ entry_null k⟩
  cases k with
  | null => exact (kind_le_null c).mp fits
  | text => cases c <;> first | rfl | cases none
  | bool =>
    rcases (kind_le_bool c).mp fits with null | ⟨b, rfl⟩
    · exact null
    · cases none
  | integer =>
    rcases (kind_le_integer c).mp fits with null | ⟨i, rfl⟩
    · exact null
    · cases none
  | float =>
    rcases (kind_le_float c).mp fits with null | ⟨i, rfl⟩ | ⟨x, rfl⟩
    · exact null
    · cases none
    · cases none

theorem fits_own (cells : List Cell) : ∀ c ∈ cells, ofCell c ≤ ofCells cells := (of_cells_le cells _).mp le_rfl

theorem integer_alone (k : Kind) : k = .integer ↔ k ≤ .integer ∧ ¬ k ≤ .null := by cases k <;> decide

theorem float_alone (k : Kind) : k = .float ↔ k ≤ .float ∧ ¬ k ≤ .integer := by cases k <;> decide

theorem bool_alone (k : Kind) : k = .bool ↔ k ≤ .bool ∧ ¬ k ≤ .null := by cases k <;> decide

end Kind

def Integers (cells : List Cell) : Prop :=
  (∀ c ∈ cells, c = .null ∨ ∃ i, c = .integer i) ∧ ∃ i, .integer i ∈ cells

def Floats (cells : List Cell) : Prop :=
  (∀ c ∈ cells, c = .null ∨ (∃ i, c = .integer i) ∨ ∃ x, c = .float x) ∧ ∃ x, .float x ∈ cells

def Bools (cells : List Cell) : Prop :=
  (∀ c ∈ cells, c = .null ∨ ∃ b, c = .bool b) ∧ ∃ b, .bool b ∈ cells

namespace Kind

variable (cells : List Cell)

theorem of_cells_integer : ofCells cells = .integer ↔ Integers cells := by
  simp only [integer_alone, of_cells_le, kind_le_integer, kind_le_null, not_forall]
  refine and_congr_right fun all => ⟨fun ⟨c, member, value⟩ => ?_, fun ⟨i, member⟩ => ⟨_, member, Cell.noConfusion⟩⟩
  obtain ⟨i, rfl⟩ := (all c member).resolve_left value
  exact ⟨i, member⟩

theorem of_cells_float : ofCells cells = .float ↔ Floats cells := by
  simp only [float_alone, of_cells_le, kind_le_float, kind_le_integer, not_forall]
  refine and_congr_right fun all => ⟨fun ⟨c, member, other⟩ => ?_, fun ⟨x, member⟩ => ⟨_, member, by simp⟩⟩
  obtain ⟨null, whole⟩ := not_or.mp other
  obtain ⟨x, rfl⟩ := ((all c member).resolve_left null).resolve_left whole
  exact ⟨x, member⟩

theorem of_cells_bool : ofCells cells = .bool ↔ Bools cells := by
  simp only [bool_alone, of_cells_le, kind_le_bool, kind_le_null, not_forall]
  refine and_congr_right fun all => ⟨fun ⟨c, member, value⟩ => ?_, fun ⟨b, member⟩ => ⟨_, member, Cell.noConfusion⟩⟩
  obtain ⟨b, rfl⟩ := (all c member).resolve_left value
  exact ⟨b, member⟩

end Kind

section Types

variable (cells : List Cell)

theorem infer_type : (Column.infer cells).type = (Kind.ofCells cells).columnType := by
  rw [Kind.infer_of_kind]

theorem infer_values : (Column.infer cells).values =
    cells.map fun c => ⟨(Kind.ofCells cells).columnType, (Kind.ofCells cells).entry c⟩ := by
  rw [Kind.infer_of_kind, Column.values, List.map_map]
  rfl

theorem value_at (i : Nat) (c : Cell) (there : cells[i]? = some c) :
    (Column.infer cells).values[i]? = some ⟨(Kind.ofCells cells).columnType, (Kind.ofCells cells).entry c⟩ := by
  rw [infer_values, List.getElem?_map, there, Option.map_some]

theorem type_int64 : (Column.infer cells).type = .int64 ↔ Kind.ofCells cells = .integer := by
  rw [infer_type]
  cases Kind.ofCells cells <;> decide

theorem type_float64 : (Column.infer cells).type = .float64 ↔ Kind.ofCells cells = .float := by
  rw [infer_type]
  cases Kind.ofCells cells <;> decide

theorem type_boolean : (Column.infer cells).type = .boolean ↔ Kind.ofCells cells = .bool := by
  rw [infer_type]
  cases Kind.ofCells cells <;> decide

theorem type_text : (Column.infer cells).type = .text ↔
    Kind.ofCells cells ≠ .integer ∧ Kind.ofCells cells ≠ .float ∧ Kind.ofCells cells ≠ .bool := by
  rw [infer_type]
  cases Kind.ofCells cells <;> decide

theorem text_entry (text : (Column.infer cells).type = .text) (c : Cell) :
    (⟨(Kind.ofCells cells).columnType, (Kind.ofCells cells).entry c⟩ : Value) = ⟨.text, c.asText?⟩ := by
  rw [infer_type] at text
  cases kind : Kind.ofCells cells <;> rw [kind] at text <;> first | rfl | cases text

end Types

structure ColumnOf (cells : List Cell) (column : Column) : Prop where
  length : column.length = cells.length
  nulls : ∀ i : Nat, column.entries[i]? = some none ↔ cells[i]? = some .null
  int64 : column.type = .int64 ↔ Integers cells
  float64 : column.type = .float64 ↔ Floats cells
  boolean : column.type = .boolean ↔ Bools cells
  text : column.type = .text ↔ ¬ Integers cells ∧ ¬ Floats cells ∧ ¬ Bools cells
  integers : column.type = .int64 →
    ∀ (i : Nat) (n : Int64), cells[i]? = some (.integer n) → column.values[i]? = some ⟨.int64, some n⟩
  floats : column.type = .float64 →
    ∀ (i : Nat) (x : Binary64), cells[i]? = some (.float x) → column.values[i]? = some ⟨.float64, some x⟩
  rounded : column.type = .float64 → ∀ (i : Nat) (n : Int64), cells[i]? = some (.integer n) →
    ∃ x, column.values[i]? = some ⟨.float64, some x⟩ ∧ Binary64.NearestTo n.toInt x
  bools : column.type = .boolean →
    ∀ (i : Nat) (b : Bool), cells[i]? = some (.bool b) → column.values[i]? = some ⟨.boolean, some b⟩
  texts : column.type = .text →
    ∀ (i : Nat) (c : Cell), cells[i]? = some c → c ≠ .null → column.values[i]? = some ⟨.text, some c.toText⟩

theorem int64_small (n : Int64) : n.toInt.natAbs < 2 ^ 64 := by
  have low := n.le_toInt
  have high := n.toInt_lt
  have bits : 2 ^ 64 = 0x10000000000000000 := rfl
  omega

theorem null_at (cells : List Cell) (i : Nat) :
    (Column.infer cells).entries[i]? = some none ↔ cells[i]? = some .null := by
  rw [Kind.infer_of_kind]
  simp only [List.getElem?_map, Option.map_eq_some_iff]
  constructor
  · rintro ⟨c, there, none⟩
    rw [there, (Kind.entry_none _ c (Kind.fits_own cells c (List.mem_of_getElem? there))).mp none]
  · exact fun there => ⟨.null, there, Kind.entry_null _⟩

/-- The column of a list of cells holds all of them: it is null only where a cell is, its type is the narrowest
that fits, and its entries are the cells themselves, whole numbers among floats rounded to the nearest. -/
theorem infer_column_of (cells : List Cell) : ColumnOf cells (.infer cells) where
  length := infer_length cells
  nulls := null_at cells
  int64 := (type_int64 cells).trans (Kind.of_cells_integer cells)
  float64 := (type_float64 cells).trans (Kind.of_cells_float cells)
  boolean := (type_boolean cells).trans (Kind.of_cells_bool cells)
  text := by
    rw [type_text, ← Kind.of_cells_integer, ← Kind.of_cells_float, ← Kind.of_cells_bool]
  integers type i n there := by
    rw [value_at cells i _ there, (type_int64 cells).mp type]
    rfl
  floats type i x there := by
    rw [value_at cells i _ there, (type_float64 cells).mp type]
    rfl
  rounded type i n there := by
    rw [value_at cells i _ there, (type_float64 cells).mp type]
    exact ⟨_, rfl, Binary64.of_int_nearest n.toInt (int64_small n)⟩
  bools type i b there := by
    rw [value_at cells i _ there, (type_boolean cells).mp type]
    rfl
  texts type i c there value := by
    rw [value_at cells i c there, text_entry cells type c]
    cases c <;> first | rfl | exact absurd rfl value

end TablePeek
