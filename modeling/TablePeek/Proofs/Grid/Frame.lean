import TablePeek.Proofs.Grid.Lines

set_option autoImplicit false

namespace TablePeek.Grid

section Level

variable {β : Type} {f g : β → Line} {bs : List β}

theorem span_congr (bs : List β) (level : ∀ b ∈ bs, Width.ofText (f b) = Width.ofText (g b)) :
    span (bs.map f) = span (bs.map g) := by
  induction bs with
  | nil => rfl
  | cons b rest ih =>
    rw [List.forall_mem_cons] at level
    rw [List.map_cons, List.map_cons, span, span, level.1, ih level.2]

theorem span_le (bs : List β) (below : ∀ b ∈ bs, Width.ofText (f b) ≤ Width.ofText (g b)) :
    span (bs.map f) ≤ span (bs.map g) := by
  induction bs with
  | nil => exact Nat.le_refl _
  | cons b rest ih =>
    rw [List.forall_mem_cons] at below
    have later := ih below.2
    rw [List.map_cons, List.map_cons, span, span]
    omega

theorem span_lt (bs : List β) (below : ∀ b ∈ bs, Width.ofText (f b) ≤ Width.ofText (g b)) {b : β} (member : b ∈ bs)
    (less : Width.ofText (f b) < Width.ofText (g b)) : span (bs.map f) < span (bs.map g) := by
  induction bs with
  | nil => cases member
  | cons first rest ih =>
    rw [List.forall_mem_cons] at below
    rw [List.map_cons, List.map_cons, span, span]
    rcases List.mem_cons.mp member with rfl | later
    · have others := span_le rest below.2
      omega
    · have others := ih below.2 later
      omega

end Level

section Border

variable {ws : List Nat} {cells : List String}

def rule (w : Nat) : Line := List.replicate (padded w) '-'

theorem rule_width (w : Nat) : Width.ofText (rule w) = padded w := Width.of_text_replicate Width.dash_parts _

theorem border_of_blocks (ws : List Nat) (cells : List String) :
    border ws = enclose '+' ((blocks ws cells).map fun b => rule b.1) := by
  conv => lhs; rw [← blocks_widths ws cells]
  rw [border, List.map_map]
  rfl

theorem border_drawn (ws : List Nat) : ∀ c ∈ border ws, c = '+' ∨ c = '-' := by
  intro c member
  by_cases corner : c = '+'
  · exact .inl corner
  · refine .inr (Classical.byContradiction fun other => ?_)
    refine enclose_free corner (fun part ruled => ?_) member
    obtain ⟨w, _, rfl⟩ := List.mem_map.mp ruled
    exact fun inside => other (List.eq_of_mem_replicate inside)

theorem border_free (ws : List Nat) : '\n' ∉ border ws := by
  intro member
  rcases border_drawn ws '\n' member with same | same
  · exact absurd same (by decide)
  · exact absurd same (by decide)

end Border

section Lines

variable {g : Grid}

theorem border_listed (g : Grid) : border g.widths ∈ g.lines := List.mem_cons_self

theorem count_framed (p : Line → Bool) (edge : Line) (header rows : List Line) :
    (edge :: header ++ edge :: rows ++ [edge]).countP p = (header ++ rows).countP p + 3 * [edge].countP p := by
  have apart : edge :: header ++ edge :: rows ++ [edge] = [edge] ++ header ++ ([edge] ++ rows) ++ [edge] := rfl
  rw [apart]
  simp only [List.countP_append]
  omega

section Rows

variable {ws : List Nat} {cells : List String} {l : Line}

theorem row_line_starts (covers : Covers ws cells) (member : l ∈ rowLines ws cells) : ['|', ' '] <+: l := by
  obtain ⟨filled, i, rfl⟩ := row_line_parts member
  obtain ⟨b, rest, shape⟩ := List.exists_cons_of_ne_nil filled
  have first := part_of_row covers i b (shape ▸ List.mem_cons_self)
  rw [shape, partsAt, List.map_cons]
  exact enclose_starts (part_starts first) _

theorem row_line_ends (covers : Covers ws cells) (member : l ∈ rowLines ws cells) : [' ', '|'] <:+ l := by
  obtain ⟨filled, i, rfl⟩ := row_line_parts member
  have last := List.getLast?_eq_some_getLast filled
  have part := part_of_row covers i _ (List.getLast_mem filled)
  exact enclose_ends (part_ends part) (by rw [partsAt, List.getLast?_map, last, Option.map_some])

theorem row_line_free (covers : Covers ws cells) (member : l ∈ rowLines ws cells) : '\n' ∉ l := by
  obtain ⟨_, i, rfl⟩ := row_line_parts member
  apply enclose_free (by decide)
  intro part inLine
  obtain ⟨b, listed, rfl⟩ := List.mem_map.mp inLine
  exact part_free (part_of_row covers i b listed)

theorem row_line_width (covers : Covers ws cells) (room : ∀ w ∈ ws, w + 2 ≤ maxWidth) (member : l ∈ rowLines ws cells) :
    Width.ofText l = Width.ofText (border ws) := by
  obtain ⟨filled, i, rfl⟩ := row_line_parts member
  have level : ∀ b ∈ blocks ws cells, Width.ofText (partAt i b) = Width.ofText (rule b.1) := by
    intro b listed
    have inWidths : b.1 ∈ ws := blocks_widths ws cells ▸ List.mem_map_of_mem listed
    rw [part_width (room b.1 inWidths) (part_of_row covers i b listed), rule_width]
  rw [border_of_blocks ws cells, enclose_width Width.bar_parts (by simpa [partsAt] using filled),
    enclose_width Width.plus_parts (by simpa using filled), partsAt, span_congr _ level]

theorem wide_line_stands_out (covers : Covers ws cells) {s : String} (member : s ∈ cells) {line : Line}
    (inCell : line ∈ cellLines s) (wide : maxWidth < Width.ofText line + 2) :
    ∃ l ∈ rowLines ws cells, Width.ofText (border ws) < Width.ofText l := by
  obtain ⟨i, b, listed, room, padded, shown⟩ := line_shown covers member inCell
  refine ⟨_, shown, ?_⟩
  have fits := (cell_width_le s b.1).mp room line inCell
  have filled : blocks ws cells ≠ [] := List.ne_nil_of_mem listed
  have below : ∀ c ∈ blocks ws cells, Width.ofText (rule c.1) ≤ Width.ofText (partAt i c) := by
    intro c inRow
    rw [rule_width]
    exact part_width_least (part_of_row covers i c inRow)
  have less : Width.ofText (rule b.1) < Width.ofText (partAt i b) := by
    have most : Grid.padded b.1 ≤ maxWidth := Nat.min_le_left _ _
    rw [rule_width, padded, pad_width fits]
    omega
  have wider := span_lt _ below listed less
  rw [border_of_blocks ws cells, enclose_width Width.bar_parts (by simpa [partsAt] using filled),
    enclose_width Width.plus_parts (by simpa using filled), partsAt]
  omega

end Rows

theorem row_lines_between_bars (within : g.Within maxWidth) :
    ∀ l ∈ rowLines g.widths g.header ++ g.rows.flatMap (rowLines g.widths), ['|', ' '] <+: l ∧ [' ', '|'] <:+ l := by
  intro l member
  have shown : ∃ row ∈ g.header :: g.rows, l ∈ rowLines g.widths row := by
    rcases List.mem_append.mp member with header | below
    · exact ⟨g.header, List.mem_cons_self, header⟩
    · obtain ⟨row, inRows, inRow⟩ := List.mem_flatMap.mp below
      exact ⟨row, List.mem_cons_of_mem _ inRows, inRow⟩
  obtain ⟨row, inGrid, inRow⟩ := shown
  have covers := widths_cover within row inGrid
  exact ⟨row_line_starts covers inRow, row_line_ends covers inRow⟩

theorem lines_free (within : g.Within maxWidth) : ∀ l ∈ g.lines, '\n' ∉ l := by
  intro l member
  rcases mem_lines.mp member with rfl | ⟨row, shown, inRow⟩
  · exact border_free g.widths
  · exact row_line_free (widths_cover within row shown) inRow

theorem lines_level (within : g.Within 65535) :
    (∀ l ∈ g.lines, Width.ofText l = Width.ofText (border g.widths)) ↔ g.Within 65533 := by
  have covers := widths_cover within
  constructor
  · intro level row shown s inRow line inCell
    apply Nat.le_of_not_lt
    intro wide
    obtain ⟨l, member, out⟩ := wide_line_stands_out (covers row shown) inRow inCell
      (show maxWidth < Width.ofText line + 2 from Nat.add_lt_add_right wide 2)
    have inLines : l ∈ g.lines := mem_lines.mpr (.inr ⟨row, shown, member⟩)
    exact absurd (level l inLines) (Nat.ne_of_gt out)
  · intro narrow l member
    have room : ∀ w ∈ g.widths, w + 2 ≤ maxWidth := fun w inWidths =>
      Nat.add_le_add_right (widths_within (by decide) narrow w inWidths) 2
    rcases mem_lines.mp member with rfl | ⟨row, shown, inRow⟩
    · rfl
    · exact row_line_width (covers row shown) room inRow

end Lines

end TablePeek.Grid
