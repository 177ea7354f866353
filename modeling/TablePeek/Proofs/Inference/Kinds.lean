import Mathlib.Order.Bounds.Basic
import Mathlib.Order.Lattice
import TablePeek.Inference

/-!
Kinds in order. A kind is below another one if a column of the latter kind takes every cell that one of the
former takes; it is no chain, as truth values and numbers have only text above them both. The kind of a list of
cells is the least one above the kinds of its cells, so neither their order nor nulls among them tell.
-/

set_option autoImplicit false

namespace TablePeek.Kind

def below : Kind → Kind → Bool
  | .null, _ => true
  | _, .text => true
  | .integer, .float => true
  | k, l => k = l

instance partialOrder : PartialOrder Kind where
  le k l := below k l = true
  le_refl k := by cases k <;> rfl
  le_trans k l m := by cases k <;> cases l <;> cases m <;> decide
  le_antisymm k l := by cases k <;> cases l <;> decide

instance decidableLe (k l : Kind) : Decidable (k ≤ l) := inferInstanceAs (Decidable (below k l = true))

instance orderBot : OrderBot Kind where
  bot := .null
  bot_le _ := rfl

instance semilatticeSup : SemilatticeSup Kind where
  sup := join
  le_sup_left k l := by cases k <;> cases l <;> rfl
  le_sup_right k l := by cases k <;> cases l <;> rfl
  sup_le k l m := by cases k <;> cases l <;> cases m <;> decide

theorem widen_sup (k : Kind) (c : Cell) : k.widen c = k ⊔ ofCell c := rfl

theorem widen_first (c : Cell) : widen .null c = ofCell c := bot_sup_eq (ofCell c)

theorem fold_widen (k : Kind) (cells : List Cell) : cells.foldl widen k = k ⊔ ofCells cells := by
  induction cells generalizing k with
  | nil => exact (sup_bot_eq k).symm
  | cons c rest ih =>
    rw [ofCells, List.foldl_cons, List.foldl_cons, widen_first, ih, ih, widen_sup, sup_assoc]

theorem of_cells_cons (c : Cell) (rest : List Cell) : ofCells (c :: rest) = ofCell c ⊔ ofCells rest :=
  fold_widen (ofCell c) rest

theorem of_cells_append (cells more : List Cell) : ofCells (cells ++ more) = ofCells cells ⊔ ofCells more := by
  rw [ofCells, List.foldl_append, fold_widen]
  rfl

theorem of_cells_flatten (chunks : List (List Cell)) :
    ofCells chunks.flatten = (chunks.map ofCells).foldl join .null := by
  suffices ∀ k, k ⊔ ofCells chunks.flatten = (chunks.map ofCells).foldl join k by
    rw [← this]
    exact (bot_sup_eq _).symm
  induction chunks with
  | nil => exact fun k => sup_bot_eq k
  | cons chunk rest ih =>
    intro k
    rw [List.flatten_cons, of_cells_append, ← sup_assoc, ih]
    rfl

theorem of_cells_le (cells : List Cell) (k : Kind) : ofCells cells ≤ k ↔ ∀ c ∈ cells, ofCell c ≤ k := by
  induction cells with
  | nil => exact ⟨fun _ _ none => absurd none List.not_mem_nil, fun _ => bot_le⟩
  | cons c rest ih => rw [of_cells_cons, sup_le_iff, ih, List.forall_mem_cons]

theorem of_cells_congr (cells others : List Cell) (same : ∀ c, c ≠ .null → (c ∈ cells ↔ c ∈ others)) :
    ofCells cells = ofCells others := by
  apply eq_of_forall_ge_iff
  intro k
  rw [of_cells_le, of_cells_le]
  apply forall_congr'
  intro c
  by_cases null : c = .null
  · subst null
    exact ⟨fun _ _ => bot_le, fun _ _ => bot_le⟩
  · rw [same c null]

section Values

variable (c : Cell)

theorem kind_le_null : ofCell c ≤ .null ↔ c = .null := by
  cases c <;> simp [ofCell, LE.le, below]

theorem kind_le_bool : ofCell c ≤ .bool ↔ c = .null ∨ ∃ b, c = .bool b := by
  cases c <;> simp [ofCell, LE.le, below]

theorem kind_le_integer : ofCell c ≤ .integer ↔ c = .null ∨ ∃ i, c = .integer i := by
  cases c <;> simp [ofCell, LE.le, below]

theorem kind_le_float : ofCell c ≤ .float ↔ c = .null ∨ (∃ i, c = .integer i) ∨ ∃ x, c = .float x := by
  cases c <;> simp [ofCell, LE.le, below]

end Values

end TablePeek.Kind
