import Mathlib.Data.List.Forall2
import TablePeek.Proofs.Grid.Widths
import TablePeek.Proofs.Text.Split
import TablePeek.Proofs.Width

set_option autoImplicit false

namespace TablePeek.Grid

def blankPart (w : Nat) : Line := List.replicate (padded w) ' '

inductive Part (w : Nat) : Line → Prop where
  | text (line : Line) (fits : Width.ofText line ≤ w) (plain : '\n' ∉ line) : Part w (pad w line)
  | blank : Part w (blankPart w)

section Part

variable {w : Nat} {part line : Line}

theorem pad_shape (w : Nat) (line : Line) :
    pad w line = ' ' :: (line ++ ' ' :: List.replicate (w - Width.ofText line) ' ') := by
  have blanks : ' ' :: List.replicate (w - Width.ofText line) ' ' = List.replicate (w - Width.ofText line) ' ' ++ [' '] := by
    rw [← List.replicate_succ, List.replicate_succ']
  rw [pad, blanks, List.cons_append, List.cons_append, List.append_assoc]

theorem pad_width (fits : Width.ofText line ≤ w) : Width.ofText (pad w line) = w + 2 := by
  rw [pad_shape, Width.of_text_led Width.space_parts, Width.of_text_parted Width.space_parts,
    Width.of_text_replicate Width.space_parts]
  omega

theorem padded_positive (w : Nat) : 1 ≤ padded w := Nat.le_min.mpr ⟨by decide, by omega⟩

theorem blank_width (w : Nat) : Width.ofText (blankPart w) = padded w := Width.of_text_replicate Width.space_parts _

theorem part_width_least (is : Part w part) : padded w ≤ Width.ofText part := by
  cases is with
  | text line fits _ =>
    rw [pad_width fits]
    exact Nat.min_le_right _ _
  | blank => exact Nat.le_of_eq (blank_width w).symm

-- Two columns are kept free of the widest that a part can be drawn.
theorem part_width (room : w + 2 ≤ maxWidth) (is : Part w part) : Width.ofText part = padded w := by
  have all : padded w = w + 2 := Nat.min_eq_right room
  cases is with
  | text line fits _ => rw [pad_width fits, all]
  | blank => exact blank_width w

theorem part_starts (is : Part w part) : [' '] <+: part := by
  cases is with
  | text line _ _ =>
    rw [pad_shape]
    exact ⟨_, rfl⟩
  | blank =>
    obtain ⟨n, shape⟩ := Nat.exists_eq_add_of_le' (padded_positive w)
    rw [blankPart, shape, List.replicate_succ]
    exact ⟨_, rfl⟩

theorem part_ends (is : Part w part) : [' '] <:+ part := by
  cases is with
  | text line _ _ => exact ⟨_, rfl⟩
  | blank =>
    obtain ⟨n, shape⟩ := Nat.exists_eq_add_of_le' (padded_positive w)
    rw [blankPart, shape, List.replicate_succ']
    exact ⟨_, rfl⟩

theorem part_free (is : Part w part) : '\n' ∉ part := by
  cases is with
  | text line _ plain =>
    rw [pad_shape]
    simp [plain]
  | blank => simp [blankPart]

end Part

section Enclose

variable {edge : Char} {parts : List Line}

-- The columns of parts, each with the bar behind it.
def span : List Line → Nat
  | [] => 0
  | part :: rest => Width.ofText part + 1 + span rest

theorem joined_width (apart : Width.Parts edge) (parts : List Line) :
    Width.ofText (parts.flatMap (· ++ [edge])) = span parts := by
  induction parts with
  | nil => rfl
  | cons part rest ih =>
    rw [List.flatMap_cons, List.append_assoc, List.singleton_append, Width.of_text_parted apart, ih]
    rfl

theorem enclose_width (apart : Width.Parts edge) (nonempty : parts ≠ []) :
    Width.ofText (enclose edge parts) = 1 + span parts := by
  rw [enclose, List.cons_append, Width.of_text_led apart, intercalate_ended parts nonempty, joined_width apart]

theorem join_starts (edge : Char) (part : Line) (rest : List Line) : part <+: [edge].intercalate (part :: rest) := by
  rw [intercalate_behind]
  exact List.prefix_append part _

theorem join_ends (edge : Char) (parts : List Line) (last : Line) (found : parts.getLast? = some last) :
    last <:+ [edge].intercalate parts := by
  induction parts with
  | nil => cases found
  | cons part rest ih =>
    cases rest with
    | nil =>
      obtain rfl := Option.some.inj found
      exact ⟨[], List.intercalate_singleton.symm⟩
    | cons next rest =>
      rw [List.getLast?_cons_cons] at found
      rw [List.intercalate_cons_cons]
      exact (ih found).trans (List.suffix_append _ _)

theorem join_holds (edge : Char) (part : Line) (parts : List Line) (member : part ∈ parts) : part <:+: [edge].intercalate parts := by
  induction parts with
  | nil => cases member
  | cons first rest ih =>
    rcases List.mem_cons.mp member with rfl | later
    · exact (join_starts edge part rest).isInfix
    · rw [List.intercalate_cons_of_ne_nil (List.ne_nil_of_mem later)]
      exact (ih later).trans (List.suffix_append _ _).isInfix

theorem enclose_starts {part : Line} (starts : [' '] <+: part) (rest : List Line) :
    [edge, ' '] <+: enclose edge (part :: rest) := by
  obtain ⟨behind, whole⟩ := starts.trans (join_starts edge part rest)
  exact ⟨behind ++ [edge], by rw [enclose, ← whole]; simp⟩

theorem enclose_ends {last : Line} (ends : [' '] <:+ last) (found : parts.getLast? = some last) :
    [' ', edge] <:+ enclose edge parts := by
  obtain ⟨before, whole⟩ := ends.trans (join_ends edge parts last found)
  exact ⟨edge :: before, by rw [enclose, ← whole]; simp⟩

theorem enclose_holds {part : Line} (member : part ∈ parts) : part <:+: enclose edge parts := by
  have inside := join_holds edge part parts member
  exact inside.trans ((List.suffix_cons edge _).isInfix.trans (List.prefix_append _ [edge]).isInfix)

theorem enclose_free {c : Char} (other : c ≠ edge) (free : ∀ part ∈ parts, c ∉ part) : c ∉ enclose edge parts := by
  intro member
  rcases List.mem_append.mp member with front | last
  · rcases List.mem_cons.mp front with same | inside
    · exact other same
    · rcases mem_intercalate c parts inside with same | ⟨part, among, within⟩
      · exact other same
      · exact free part among within
  · exact other (List.mem_singleton.mp last)

end Enclose

section Rows

variable {ws : List Nat} {cells : List String}

theorem block_covered (w : Nat) (s : String) (narrow : cellWidth s ≤ w) : block w s = (cellLines s).map (pad w) := by
  have whole : ∀ line ∈ cellLines s, Wrap.fold w line = [line] := by
    intro line member
    rw [Wrap.fold, if_pos ((cell_width_le s w).mp narrow line member)]
  have unfolded : (cellLines s).flatMap (Wrap.fold w) = cellLines s := by
    rw [List.flatMap_congr whole, List.flatMap_singleton']
  rw [block, unfolded]

theorem cell_lines_free (s : String) : ∀ line ∈ cellLines s, '\n' ∉ line := split_on_parts_free s.toList

def partAt (i : Nat) (b : Nat × List Line) : Line := b.2.getD i (blankPart b.1)

def partsAt (i : Nat) (bs : List (Nat × List Line)) : List Line := bs.map (partAt i)

theorem row_lines_from (n : Nat) (bs : List (Nat × List Line)) :
    rowLinesFrom n bs = (List.range n).map fun i => enclose '|' (partsAt i bs) := by
  induction n generalizing bs with
  | zero => rfl
  | succ n ih =>
    have later : ∀ i, partsAt i (bs.map fun b => (b.1, b.2.tail)) = partsAt (i + 1) bs := by
      intro i
      rw [partsAt, partsAt, List.map_map]
      apply List.map_congr_left
      intro b _
      simp [partAt, List.getD_eq_getElem?_getD]
    have first : bs.map (fun b => b.2.headD (blankPart b.1)) = partsAt 0 bs := by
      apply List.map_congr_left
      intro b _
      simp [partAt, List.getD_eq_getElem?_getD, List.headD_eq_head?_getD, List.head?_eq_getElem?]
    rw [rowLinesFrom, ih, List.range_succ_eq_map, List.map_cons, List.map_map]
    refine congrArg₂ List.cons (congrArg _ first) (List.map_congr_left fun i _ => ?_)
    rw [Function.comp_apply, later]

theorem blocks_widths (ws : List Nat) (cells : List String) : (blocks ws cells).map Prod.fst = ws := by
  induction ws generalizing cells with
  | nil => rfl
  | cons w ws ih => cases cells <;> rw [blocks, List.map_cons, ih]

theorem part_of_row (covers : Covers ws cells) (i : Nat) : ∀ b ∈ blocks ws cells, Part b.1 (partAt i b) := by
  induction ws generalizing cells with
  | nil => simp [blocks]
  | cons w ws ih =>
    cases cells with
    | nil =>
      rw [blocks, List.forall_mem_cons]
      exact ⟨.blank, ih (covers_none ws)⟩
    | cons s rest =>
      rw [blocks, List.forall_mem_cons]
      refine ⟨?_, ih covers.2⟩
      simp only [partAt, block_covered w s covers.1, List.getD_eq_getElem?_getD, List.getElem?_map]
      cases found : (cellLines s)[i]? with
      | none => exact .blank
      | some line =>
        have member := List.mem_of_getElem? found
        exact .text line ((cell_width_le s w).mp covers.1 line member) (cell_lines_free s line member)

theorem row_line_parts {l : Line} (member : l ∈ rowLines ws cells) :
    blocks ws cells ≠ [] ∧ ∃ i, l = enclose '|' (partsAt i (blocks ws cells)) := by
  rw [rowLines, row_lines_from] at member
  obtain ⟨i, inside, rfl⟩ := List.mem_map.mp member
  refine ⟨fun none => ?_, i, rfl⟩
  rw [none] at inside
  cases inside

theorem block_listed (covers : Covers ws cells) {s : String} (member : s ∈ cells) :
    ∃ w, cellWidth s ≤ w ∧ (w, (cellLines s).map (pad w)) ∈ blocks ws cells := by
  induction ws generalizing cells with
  | nil =>
    cases cells with
    | nil => cases member
    | cons t rest => exact covers.elim
  | cons w ws ih =>
    cases cells with
    | nil => cases member
    | cons t rest =>
      rcases List.mem_cons.mp member with rfl | later
      · exact ⟨w, covers.1, by rw [blocks, block_covered w s covers.1]; exact List.mem_cons_self⟩
      · obtain ⟨v, room, listed⟩ := ih covers.2 later
        exact ⟨v, room, List.mem_cons_of_mem _ listed⟩

theorem block_height {bs : List (Nat × List Line)} {b : Nat × List Line} (listed : b ∈ bs) :
    b.2.length ≤ height bs := by
  cases bs with
  | nil => cases listed
  | cons first rest =>
    have least := (fold_max_le ((first :: rest).map fun b => b.2.length) 1 _).mp (Nat.le_refl _)
    exact least.2 _ (List.mem_map_of_mem listed)

theorem line_shown (covers : Covers ws cells) {s : String} (member : s ∈ cells) {line : Line}
    (inCell : line ∈ cellLines s) :
    ∃ i, ∃ b ∈ blocks ws cells, cellWidth s ≤ b.1 ∧ partAt i b = pad b.1 line ∧
      enclose '|' (partsAt i (blocks ws cells)) ∈ rowLines ws cells := by
  obtain ⟨w, room, listed⟩ := block_listed covers member
  obtain ⟨i, found⟩ := List.mem_iff_getElem?.mp inCell
  have padded : ((cellLines s).map (pad w))[i]? = some (pad w line) := by rw [List.getElem?_map, found, Option.map_some]
  have early : i < height (blocks ws cells) := by
    have inside := (List.getElem?_eq_some_iff.mp padded).1
    exact Nat.lt_of_lt_of_le inside (block_height listed)
  refine ⟨i, _, listed, room, by rw [partAt, List.getD_eq_getElem?_getD, padded, Option.getD_some], ?_⟩
  rw [rowLines, row_lines_from]
  exact List.mem_map.mpr ⟨i, List.mem_range.mpr early, rfl⟩

end Rows

theorem mem_lines {g : Grid} {l : Line} :
    l ∈ g.lines ↔ l = border g.widths ∨ ∃ row ∈ g.header :: g.rows, l ∈ rowLines g.widths row := by
  simp only [lines, List.mem_append, List.mem_cons, List.mem_flatMap, List.not_mem_nil, or_false]
  constructor
  · rintro (((same | header) | same | ⟨row, shown, inRow⟩) | same)
    · exact .inl same
    · exact .inr ⟨g.header, .inl rfl, header⟩
    · exact .inl same
    · exact .inr ⟨row, .inr shown, inRow⟩
    · exact .inl same
  · rintro (same | ⟨row, rfl | shown, inRow⟩)
    · exact .inr same
    · exact .inl (.inl (.inr inRow))
    · exact .inl (.inr (.inr ⟨row, shown, inRow⟩))

end TablePeek.Grid
