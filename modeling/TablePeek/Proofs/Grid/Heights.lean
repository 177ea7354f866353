import TablePeek.Proofs.Grid.Batching
import TablePeek.Proofs.Grid.Frame

set_option autoImplicit false

namespace TablePeek

namespace Grid

def barLines (text : List Char) : Nat := (List.splitOn '\n' text).countP fun l => l.head? = some '|'

def tall (cells : List String) : Nat := (cells.map fun s => (cellLines s).length).foldl max 1

def tallAll : List (List String) → Nat
  | [] => 0
  | row :: rest => tall row + tallAll rest

section Tall

variable {ws : List Nat} {cells : List String}

theorem cell_lines_length (s : String) : (cellLines s).length = s.toList.count '\n' + 1 := split_on_length s.toList

theorem tall_positive (cells : List String) : 1 ≤ tall cells := ((fold_max_le _ 1 _).mp (Nat.le_refl _)).1

theorem tall_one (cells : List String) : tall cells = 1 ↔ ∀ s ∈ cells, '\n' ∉ s.toList := by
  have least := tall_positive cells
  have most : tall cells ≤ 1 ↔ ∀ s ∈ cells, '\n' ∉ s.toList := by
    rw [tall, fold_max_le, List.forall_mem_map, and_iff_right (Nat.le_refl 1)]
    apply forall₂_congr
    intro s _
    rw [cell_lines_length, ← List.count_eq_zero]
    omega
  rw [← most]
  omega

theorem block_lengths (covers : Covers ws cells) :
    ∀ b ∈ blocks ws cells, b.2.length = 0 ∨ ∃ s ∈ cells, b.2.length = (cellLines s).length := by
  induction ws generalizing cells with
  | nil => simp [blocks]
  | cons w ws ih =>
    cases cells with
    | nil =>
      rw [blocks, List.forall_mem_cons]
      exact ⟨.inl rfl, ih (covers_none ws)⟩
    | cons s rest =>
      rw [blocks, List.forall_mem_cons]
      refine ⟨.inr ⟨s, List.mem_cons_self, by rw [block_covered w s covers.1, List.length_map]⟩, fun b listed => ?_⟩
      rcases ih covers.2 b listed with none | ⟨t, member, same⟩
      · exact .inl none
      · exact .inr ⟨t, List.mem_cons_of_mem s member, same⟩

theorem height_of_row (covers : Covers ws cells) (columns : ws ≠ []) : height (blocks ws cells) = tall cells := by
  have lengths := (fold_max_le (cells.map fun s => (cellLines s).length) 1 (tall cells)).mp (Nat.le_refl _)
  obtain ⟨b, rest, shape⟩ : ∃ b rest, blocks ws cells = b :: rest := by
    refine List.exists_cons_of_ne_nil fun none => columns ?_
    rw [← blocks_widths ws cells, none, List.map_nil]
  have unfolded : height (blocks ws cells) = ((blocks ws cells).map fun b => b.2.length).foldl max 1 := by
    rw [shape, height]
    exact List.cons_ne_nil b rest
  apply Nat.le_antisymm
  · rw [unfolded, fold_max_le, List.forall_mem_map]
    refine ⟨lengths.1, fun c listed => ?_⟩
    rcases block_lengths covers c listed with none | ⟨s, member, same⟩
    · omega
    · rw [same]
      exact lengths.2 _ (List.mem_map_of_mem member)
  · rw [tall, fold_max_le, List.forall_mem_map]
    refine ⟨?_, fun s member => ?_⟩
    · rw [unfolded]
      exact ((fold_max_le _ 1 _).mp (Nat.le_refl _)).1
    · obtain ⟨w, _, listed⟩ := block_listed covers member
      have reached := block_height listed
      rwa [List.length_map] at reached

theorem row_lines_length (covers : Covers ws cells) (columns : ws ≠ []) : (rowLines ws cells).length = tall cells := by
  rw [rowLines, row_lines_from, List.length_map, List.length_range, height_of_row covers columns]

theorem flat_row_lines_length (rows : List (List String)) (covers : ∀ row ∈ rows, Covers ws row) (columns : ws ≠ []) :
    (rows.flatMap (rowLines ws)).length = tallAll rows := by
  induction rows with
  | nil => rfl
  | cons row rest ih =>
    rw [List.forall_mem_cons] at covers
    rw [List.flatMap_cons, List.length_append, row_lines_length covers.1 columns, ih covers.2, tallAll]

theorem tall_all_least (rows : List (List String)) : rows.length ≤ tallAll rows := by
  induction rows with
  | nil => exact Nat.le_refl _
  | cons row rest ih =>
    have positive := tall_positive row
    rw [tallAll, List.length_cons]
    omega

theorem tall_all_one (rows : List (List String)) :
    tallAll rows = rows.length ↔ ∀ row ∈ rows, ∀ s ∈ row, '\n' ∉ s.toList := by
  induction rows with
  | nil => simp [tallAll]
  | cons row rest ih =>
    have positive := tall_positive row
    have least := tall_all_least rest
    rw [List.forall_mem_cons, ← tall_one row, ← ih, tallAll, List.length_cons]
    omega

end Tall

variable {g : Grid}

theorem widths_of_columns (within : g.Within maxWidth) (columns : g.header ≠ []) : g.widths ≠ [] := by
  intro none
  have covers := widths_cover within g.header List.mem_cons_self
  obtain ⟨name, rest, shape⟩ := List.exists_cons_of_ne_nil columns
  rw [none, shape] at covers
  exact covers

theorem bar_lines_of_grid (within : g.Within maxWidth) (columns : g.header ≠ []) :
    barLines g.toText = tall g.header + tallAll g.rows := by
  have covers := widths_cover within
  have filled := widths_of_columns within columns
  have bars : ∀ l ∈ rowLines g.widths g.header ++ g.rows.flatMap (rowLines g.widths),
      decide (l.head? = some '|') = true := by
    intro l member
    obtain ⟨rest, rfl⟩ := (row_lines_between_bars within l member).1
    rfl
  have header := row_lines_length (covers _ List.mem_cons_self) filled
  have rows := flat_row_lines_length g.rows (fun row below => covers row (List.mem_cons_of_mem _ below)) filled
  rw [barLines, toText, List.splitOn_intercalate '\n' (lines_free within) (List.cons_ne_nil _ _), lines, count_framed,
    List.countP_eq_length.mpr bars, List.length_append, header, rows]
  rfl

theorem one_line_per_row (within : g.Within maxWidth) (columns : g.header ≠ []) :
    barLines g.toText = 1 + g.rows.length ↔
      (∀ name ∈ g.header, '\n' ∉ name.toList) ∧ ∀ row ∈ g.rows, ∀ s ∈ row, '\n' ∉ s.toList := by
  have header := tall_positive g.header
  have rows := tall_all_least g.rows
  rw [bar_lines_of_grid within columns, ← tall_one g.header, ← tall_all_one g.rows]
  omega

end Grid

section Loaded

variable {fs : FileSystem} {p : Path} {t : Table}

theorem columnar_fields {found : Node} (loaded : Load.columnar found = .ok t) : ∀ b ∈ t.batches, b.schema = t.schema := by
  unfold Load.columnar at loaded
  split at loaded
  · cases loaded
  · split at loaded
    · cases loaded
    · obtain rfl := Except.ok.inj loaded
      exact StoredTable.batches_schema _
  · obtain rfl := Except.ok.inj loaded
    exact StoredTable.batches_schema _

theorem loaded_fields (loaded : fs.load p = .ok t) : ∀ b ∈ t.batches, b.schema = t.schema := by
  by_cases format : Format.ofPath p = .parquet
  · unfold FileSystem.load Load.opened at loaded
    cases found : fs.find p with
    | error e => simp [found] at loaded
    | ok n =>
      simp only [found, format] at loaded
      exact columnar_fields loaded
  · exact fun b member => ((text_file_well_formed format loaded).batches b member).fields

theorem loaded_grid (loaded : fs.load p = .ok t) (mode : Mode) : t.grid mode = ⟨t.columnNames, t.textsInView mode⟩ :=
  grid_of_rows mode fun b member => by rw [loaded_fields loaded b member, Table.columnNames]

theorem texts_in_view_length (t : Table) (mode : Mode) : (t.textsInView mode).length = mode.limit t.numRows := by
  rw [Table.textsInView, List.length_map, List.length_take, Table.row_list_length]
  apply Nat.min_eq_left
  cases mode with
  | head n => exact Nat.min_le_right n _
  | full => exact Nat.le_refl _

/-- A loaded table takes as many lines as its names and the cells in view are tall; that is one for the header
and one for each row just when no line feed is on show. -/
theorem loaded_row_lines (loaded : fs.load p = .ok t) (columns : t.schema ≠ []) (mode : Mode)
    (within : (t.grid mode).Within 65535) :
    Grid.barLines (t.render mode) = Grid.tall t.columnNames + Grid.tallAll (t.textsInView mode) ∧
      (Grid.barLines (t.render mode) = 1 + mode.limit t.numRows ↔
        (∀ name ∈ t.columnNames, '\n' ∉ name.toList) ∧ ∀ row ∈ t.textsInView mode, ∀ s ∈ row, '\n' ∉ s.toList) := by
  have named : t.columnNames ≠ [] := by simpa [Table.columnNames] using columns
  have grid := loaded_grid loaded mode
  rw [grid] at within
  rw [Table.render, grid, ← texts_in_view_length]
  exact ⟨Grid.bar_lines_of_grid within named, Grid.one_line_per_row within named⟩

theorem quoted_row_takes_three_lines :
    let schema : Schema := [⟨"id", .int64, false⟩, ⟨"text", .text, false⟩]
    let t : Table := ⟨schema, [⟨schema, 2, [⟨.int64, [some 1, some 2]⟩, ⟨.text, [some "a\nb\nc", some "d"]⟩],
      by decide⟩]⟩
    let file := Utf8.encodeString "id,text\n1,\"a\nb\nc\"\n2,d\n"
    let fs : FileSystem := ⟨[([Utf8.encodeString "t.csv"], .file (.bytes file))], []⟩
    fs.load (Utf8.encodeString "t.csv") = .ok t ∧ (t.grid .full).Within 65535 ∧
      Grid.barLines (t.render .full) = 5 := by
  intro schema t file fs
  have loaded : fs.load (Utf8.encodeString "t.csv") = .ok t := by decide +kernel
  have within : (t.grid .full).Within 65535 := by
    rw [Grid.Within]
    decide +kernel
  have tall : Grid.tall t.columnNames + Grid.tallAll (t.textsInView .full) = 5 := by decide +kernel
  exact ⟨loaded, within, tall ▸ (loaded_row_lines loaded (List.cons_ne_nil _ _) .full within).1⟩

theorem one_row_in_two_lines :
    let schema : Schema := [⟨"a", .text, false⟩]
    let t : Table := ⟨schema, [⟨schema, 1, [⟨.text, [some "x\ny"]⟩], by decide⟩]⟩
    let fs : FileSystem := ⟨[([Utf8.encodeString "t.csv"], .file (.bytes (Utf8.encodeString "a\n\"x\ny\"\n")))], []⟩
    fs.load (Utf8.encodeString "t.csv") = .ok t ∧ t.numRows = 1 ∧
      Grid.barLines (t.render (.head 1)) ≠ 1 + min 1 t.numRows ∧ Grid.barLines (t.render .full) ≠ 1 + t.numRows := by
  decide +kernel

end Loaded

end TablePeek
