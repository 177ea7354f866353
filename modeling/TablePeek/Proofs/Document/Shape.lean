import TablePeek.Document
import TablePeek.Proofs.Grid.Frame
import TablePeek.Proofs.Text.Utf8

set_option autoImplicit false

namespace TablePeek.Document

theorem print_unlimited (t : Table) (mode : Mode) :
    print t mode .unlimited = ({ Sink.unlimited with taken := Utf8.encode (toText t mode) }, .ok ()) := by
  have text : Utf8.encode (toText t mode) = (([] ++ Utf8.encode (divider ++ ['\n'])) ++
      Utf8.encode (t.render mode ++ ['\n'])) ++ Utf8.encode ('\n' :: divider ++ ['\n']) := by
    rw [List.nil_append, ← Utf8.encode_append, ← Utf8.encode_append]
    simp [toText, pieces]
  rw [text]
  rfl

theorem divider_free : '\n' ∉ divider := by decide

theorem split_document (t : Table) (mode : Mode) (free : ∀ l ∈ (t.grid mode).lines, '\n' ∉ l) :
    List.splitOn '\n' (toText t mode) = divider :: (t.grid mode).lines ++ [[], divider, []] := by
  have nonempty : (t.grid mode).lines ≠ [] := by simp [Grid.lines]
  have shape : toText t mode =
      divider ++ '\n' :: (['\n'].intercalate (t.grid mode).lines ++ '\n' :: ('\n' :: (divider ++ ['\n']))) := by
    simp [toText, pieces, Table.render, Grid.toText]
  have ending : List.splitOn '\n' ('\n' :: (divider ++ ['\n'])) = [[], divider, []] := by decide
  rw [shape, List.splitOn_append_cons_self_of_not_mem divider_free, split_on_intercalate_behind _ _ nonempty free, ending]
  rfl

/-- The printed document is a divider, the grid, an empty line and a divider. No other line is a divider, the
grid has three equal rules and otherwise lines between bars, and these are all of one width unless a line of
a name or cell takes one of the last two columns of the widest there can be. -/
theorem printed_between_dividers (t : Table) (mode : Mode) (within : (t.grid mode).Within 65535) :
    print t mode .unlimited = ({ Sink.unlimited with taken := Utf8.encode (toText t mode) }, .ok ()) ∧
    ∃ (edge : Grid.Line) (header rows : List Grid.Line),
      let grid := edge :: header ++ edge :: rows ++ [edge]
      List.splitOn '\n' (toText t mode) = divider :: grid ++ [[], divider, []] ∧
      (List.splitOn '\n' (toText t mode)).count divider = 2 ∧
      grid.countP (fun l => l.head? = some '+') = 3 ∧
      edge.head? = some '+' ∧ (∀ c ∈ edge, c = '+' ∨ c = '-') ∧
      (∀ l ∈ header ++ rows, ['|', ' '] <+: l ∧ [' ', '|'] <:+ l) ∧
      ((∀ l ∈ grid, Width.ofText l = Width.ofText edge) ↔ (t.grid mode).Within 65533) := by
  have split := split_document t mode (Grid.lines_free within)
  have bars := Grid.row_lines_between_bars within
  have first : ∀ l, ['|', ' '] <+: l → l.head? = some '|' := by
    rintro _ ⟨rest, rfl⟩
    rfl
  refine ⟨print_unlimited t mode, Grid.border (t.grid mode).widths, _, _, split, ?_, ?_, rfl, Grid.border_drawn _, bars,
    Grid.lines_level within⟩
  · -- A line of the grid begins with a corner or a bar, a divider with a dash.
    have none : divider ∉ (t.grid mode).lines := by
      intro member
      rcases Grid.mem_lines.mp member with same | ⟨row, shown, inRow⟩
      · have head : divider.head? = some '+' := congrArg List.head? same
        exact absurd head (by decide)
      · have head := first divider (Grid.row_line_starts (Grid.widths_cover within row shown) inRow)
        exact absurd head (by decide)
    rw [split, List.count_append, List.count_cons_self, List.count_eq_zero_of_not_mem none]
    decide
  · have none : ∀ l ∈ Grid.rowLines (t.grid mode).widths (t.grid mode).header ++
        (t.grid mode).rows.flatMap (Grid.rowLines (t.grid mode).widths), ¬ decide (l.head? = some '+') = true := by
      intro l member
      rw [first l (bars l member).1]
      decide
    rw [Grid.count_framed, List.countP_eq_zero.mpr none]
    rfl

theorem look_alikes_stay_inside :
    let schema : Schema := [⟨"+--+\n" ++ String.ofList divider, .text, true⟩, ⟨"", .float64, true⟩]
    let t : Table := ⟨schema, [⟨schema, 2, [⟨.text, [some "👩‍🦰️\r\n|\n", some "لا | x "]⟩, ⟨.float64, [none, some .nan]⟩], by decide⟩]⟩
    (t.grid .full).Within 65535 ∧ (List.splitOn '\n' (toText t .full)).count divider = 2 ∧
      ∃ edge, ∀ l ∈ (t.grid .full).lines, Width.ofText l = Width.ofText edge := by
  intro schema t
  have within : (t.grid .full).Within 65535 := by
    rw [Grid.Within]
    decide +kernel
  have narrow : (t.grid .full).Within 65533 := by
    rw [Grid.Within]
    decide +kernel
  obtain ⟨_, edge, header, rows, split, twice, _, _, _, _, level⟩ := printed_between_dividers t .full within
  have same : (t.grid .full).lines = edge :: header ++ edge :: rows ++ [edge] := by
    have lines := split_document t .full (Grid.lines_free within)
    rw [split] at lines
    exact (List.append_cancel_right (List.cons.inj lines).2).symm
  exact ⟨within, twice, edge, same ▸ level.mpr narrow⟩

section WideName

def loneName (name : String) : Table := ⟨[⟨name, .text, false⟩], [.empty [⟨name, .text, false⟩]]⟩

def letters (n : Nat) : String := String.ofList (List.replicate n 'a')

theorem lone_name_grid (name : String) : (loneName name).grid .full = ⟨[name], []⟩ := rfl

theorem letters_within (n limit : Nat) : ((loneName (letters n)).grid .full).Within limit ↔ n ≤ limit := by
  have parts : Width.Parts 'a' := Width.parts_of_plain (by decide) (by decide)
  have lines : Grid.cellLines (letters n) = [List.replicate n 'a'] := by
    rw [Grid.cellLines, letters, String.toList_ofList]
    exact List.splitOn_eq_singleton fun member => absurd (List.eq_of_mem_replicate member) (by decide)
  rw [lone_name_grid, Grid.Within]
  simp [lines, Width.of_text_replicate parts]

end WideName

theorem wide_name_stands_out :
    let t := loneName (letters 65534)
    (t.grid .full).Within 65535 ∧
      List.splitOn '\n' (toText t .full) = divider :: (t.grid .full).lines ++ [[], divider, []] ∧
      ¬ ∀ l ∈ (t.grid .full).lines, ∀ m ∈ (t.grid .full).lines, Width.ofText l = Width.ofText m := by
  intro t
  have within : (t.grid .full).Within 65535 := (letters_within 65534 65535).mpr (by decide)
  refine ⟨within, split_document t .full (Grid.lines_free within), fun level => ?_⟩
  have narrow := (Grid.lines_level within).mp fun l member => level l member _ (Grid.border_listed _)
  exact absurd ((letters_within 65534 65533).mp narrow) (by decide)

end TablePeek.Document
