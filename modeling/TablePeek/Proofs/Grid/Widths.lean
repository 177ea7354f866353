import TablePeek.Grid

set_option autoImplicit false

namespace TablePeek.Grid

def Within (g : Grid) (limit : Nat) : Prop :=
  ∀ row ∈ g.header :: g.rows, ∀ s ∈ row, ∀ line ∈ cellLines s, Width.ofText line ≤ limit

def Covers : List Nat → List String → Prop
  | _, [] => True
  | [], _ :: _ => False
  | w :: ws, s :: cells => cellWidth s ≤ w ∧ Covers ws cells

theorem fold_max_le (xs : List Nat) (a b : Nat) : xs.foldl max a ≤ b ↔ a ≤ b ∧ ∀ x ∈ xs, x ≤ b := by
  induction xs generalizing a with
  | nil => simp
  | cons x rest ih => rw [List.foldl_cons, ih, Nat.max_le, List.forall_mem_cons, and_assoc]

theorem cell_width_le (s : String) (limit : Nat) :
    cellWidth s ≤ limit ↔ ∀ line ∈ cellLines s, Width.ofText line ≤ limit := by
  rw [cellWidth, fold_max_le, List.forall_mem_map]
  exact and_iff_right (Nat.zero_le limit)

section Covers

variable {vs ws : List Nat} {cells : List String}

theorem covers_none (ws : List Nat) : Covers ws [] := by cases ws <;> trivial

theorem covers_own (cells : List String) : Covers (cells.map cellWidth) cells := by
  induction cells with
  | nil => trivial
  | cons s rest ih => exact ⟨Nat.le_refl _, ih⟩

theorem covers_left (covers : Covers vs cells) : Covers (maxWidths vs ws) cells := by
  induction vs generalizing ws cells with
  | nil =>
    cases cells with
    | nil => exact covers_none _
    | cons s rest => exact covers.elim
  | cons v vs ih =>
    cases cells with
    | nil => exact covers_none _
    | cons s rest =>
      cases ws with
      | nil => exact covers
      | cons w ws => exact ⟨Nat.le_trans covers.1 (Nat.le_max_left v w), ih covers.2⟩

theorem covers_right (covers : Covers ws cells) : Covers (maxWidths vs ws) cells := by
  induction vs generalizing ws cells with
  | nil => rwa [maxWidths]
  | cons v vs ih =>
    cases cells with
    | nil => exact covers_none _
    | cons s rest =>
      cases ws with
      | nil => exact covers.elim
      | cons w ws => exact ⟨Nat.le_trans covers.1 (Nat.le_max_right v w), ih covers.2⟩

theorem covers_kept (rows : List (List String)) (covers : Covers ws cells) :
    Covers (rows.foldl (fun ws row => maxWidths ws (row.map cellWidth)) ws) cells := by
  induction rows generalizing ws with
  | nil => exact covers
  | cons row rest ih => exact ih (covers_left covers)

theorem covers_all (rows : List (List String)) (ws : List Nat) :
    ∀ row ∈ rows, Covers (rows.foldl (fun ws row => maxWidths ws (row.map cellWidth)) ws) row := by
  induction rows generalizing ws with
  | nil => simp
  | cons row rest ih =>
    intro other member
    rcases List.mem_cons.mp member with rfl | later
    · exact covers_kept rest (covers_right (covers_own other))
    · exact ih _ other later

theorem covers_capped (covers : Covers ws cells) (narrow : ∀ s ∈ cells, cellWidth s ≤ maxWidth) :
    Covers (ws.map fun w => max 1 (min maxWidth w)) cells := by
  induction ws generalizing cells with
  | nil =>
    cases cells with
    | nil => trivial
    | cons s rest => exact covers.elim
  | cons w ws ih =>
    cases cells with
    | nil => trivial
    | cons s rest =>
      have room : cellWidth s ≤ min maxWidth w := Nat.le_min.mpr ⟨narrow s List.mem_cons_self, covers.1⟩
      exact ⟨Nat.le_trans room (Nat.le_max_right 1 _), ih covers.2 fun t member => narrow t (List.mem_cons_of_mem s member)⟩

end Covers

section Widths

variable {g : Grid} {limit : Nat}

theorem within_cells (within : g.Within limit) :
    ∀ row ∈ g.header :: g.rows, ∀ s ∈ row, cellWidth s ≤ limit :=
  fun row shown s member => (cell_width_le s limit).mpr (within row shown s member)

theorem widths_cover (within : g.Within maxWidth) : ∀ row ∈ g.header :: g.rows, Covers g.widths row :=
  fun row shown => covers_capped (covers_all (g.header :: g.rows) [] row shown) (within_cells within row shown)

theorem max_widths_within (vs ws : List Nat) (left : ∀ v ∈ vs, v ≤ limit) (right : ∀ w ∈ ws, w ≤ limit) :
    ∀ w ∈ maxWidths vs ws, w ≤ limit := by
  induction vs generalizing ws with
  | nil => rwa [maxWidths]
  | cons v vs ih =>
    cases ws with
    | nil => exact left
    | cons w ws =>
      rw [List.forall_mem_cons] at left right
      rw [maxWidths, List.forall_mem_cons]
      exact ⟨Nat.max_le.mpr ⟨left.1, right.1⟩, ih ws left.2 right.2⟩

theorem fold_widths_within (rows : List (List String)) (ws : List Nat) (start : ∀ w ∈ ws, w ≤ limit)
    (narrow : ∀ row ∈ rows, ∀ s ∈ row, cellWidth s ≤ limit) :
    ∀ w ∈ rows.foldl (fun ws row => maxWidths ws (row.map cellWidth)) ws, w ≤ limit := by
  induction rows generalizing ws with
  | nil => exact start
  | cons row rest ih =>
    rw [List.forall_mem_cons] at narrow
    exact ih _ (max_widths_within ws _ start (List.forall_mem_map.mpr narrow.1)) narrow.2

theorem widths_within (positive : 1 ≤ limit) (within : g.Within limit) : ∀ w ∈ g.widths, w ≤ limit := by
  intro w member
  obtain ⟨v, inside, rfl⟩ := List.mem_map.mp member
  have bound := fold_widths_within (g.header :: g.rows) [] (by simp) (within_cells within) v inside
  exact Nat.max_le.mpr ⟨positive, Nat.le_trans (Nat.min_le_right _ _) bound⟩

end Widths

end TablePeek.Grid
