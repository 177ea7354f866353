import TablePeek.Document
import TablePeek.Proofs.Grid.Lines
import TablePeek.Proofs.Table.Invariant
import TablePeek.Proofs.Table.Rows

set_option autoImplicit false

namespace TablePeek

def Mode.limit : Mode → Nat → Nat
  | .head n, rows => min n rows
  | .full, rows => rows

namespace Table

def textsInView (t : Table) (mode : Mode) : List (List String) :=
  (t.rowList.take (mode.limit t.numRows)).map (List.map Value.text)

def headerGrid (t : Table) : Grid := ⟨t.columnNames, []⟩

end Table

theorem transpose_rows (count : Nat) (columns : List (List String)) :
    Grid.transpose count columns = rowsOf "" count columns := by
  induction count generalizing columns with
  | zero => rfl
  | succ n ih => rw [Grid.transpose, ih, rows_of_succ]

theorem of_batch_texts (b : Batch) : Grid.ofBatch b = b.rowList.map (List.map Value.text) := by
  have texts : b.columns.map Column.texts = (b.columns.map Column.values).map (List.map Value.text) := by
    rw [List.map_map]
    exact List.map_congr_left fun c _ => Column.texts_of_values c
  rw [Grid.ofBatch, transpose_rows, texts]
  exact rows_of_map Value.blank Value.text b.rows _

theorem flat_map_texts (batches : List Batch) :
    batches.flatMap Grid.ofBatch = (batches.flatMap Batch.rowList).map (List.map Value.text) := by
  rw [List.map_flatMap]
  exact List.flatMap_congr fun b _ => of_batch_texts b

section Grid

variable {t : Table} {mode : Mode}

theorem shown_rows (t : Table) (mode : Mode) : (t.shown mode).rowList = t.rowList.take (mode.limit t.numRows) := by
  rw [← Table.row_list_length]
  cases mode with
  | head n => rw [Table.shown, Table.head_rows, Mode.limit, ← List.take_eq_take_min]
  | full => rw [Table.shown, Mode.limit, List.take_length]

theorem shown_names (mode : Mode) (named : ∀ b ∈ t.batches, b.schema.map Field.name = t.columnNames) :
    ∀ b ∈ (t.shown mode).batches, b.schema.map Field.name = t.columnNames := by
  cases mode with
  | full => exact named
  | head n =>
    intro b member
    obtain ⟨c, inTable, k, rfl⟩ := Table.take_rows_cut n t.batches b member
    exact named c inTable

theorem shown_schema (t : Table) (mode : Mode) : (t.shown mode).schema = t.schema := by
  cases mode <;> rfl

-- The three ways to a header, through the first batch, a cut one or none, all lead to the same names.
theorem grid_of_rows (mode : Mode) (named : ∀ b ∈ t.batches, b.schema.map Field.name = t.columnNames) :
    t.grid mode = ⟨t.columnNames, t.textsInView mode⟩ := by
  have rows := shown_rows t mode
  have names := shown_names mode named
  rw [Table.rowList] at rows
  unfold Table.grid
  cases shape : (t.shown mode).batches with
  | nil =>
    rw [shape] at rows
    simp only [shape, Table.textsInView, ← rows, shown_schema]
    simp [Grid.ofBatches, Grid.ofBatch, Grid.transpose, Batch.empty, Table.columnNames]
  | cons b rest =>
    rw [shape] at rows names
    simp only [shape]
    change Grid.mk (b.schema.map Field.name) ((b :: rest).flatMap Grid.ofBatch) = _
    rw [flat_map_texts, rows, names b List.mem_cons_self, Table.textsInView]

theorem fitting_names (good : t.WellFormed) : ∀ b ∈ t.batches, b.schema.map Field.name = t.columnNames := by
  intro b member
  rw [(good.batches b member).fields, Table.columnNames]

theorem render_of_rows (good : t.WellFormed) (mode : Mode) :
    t.render mode = (Grid.mk t.columnNames (t.textsInView mode)).toText := by
  rw [Table.render, grid_of_rows mode (fitting_names good)]

theorem no_rows_in_view (none : mode.limit t.numRows = 0) : t.textsInView mode = [] := by
  rw [Table.textsInView, none, List.take_zero, List.map_nil]

end Grid

theorem pad_holds (w : Nat) (line : Grid.Line) : line <:+: Grid.pad w line := by
  rw [Grid.pad_shape]
  exact (List.prefix_append line _).isInfix.trans (List.suffix_cons ' ' _).isInfix

theorem text_holds {g : Grid} {l : Grid.Line} (member : l ∈ g.lines) : l <:+: g.toText :=
  Grid.join_holds '\n' l g.lines member

theorem header_line_shown {g : Grid} (within : g.Within Grid.maxWidth) {name : String} (member : name ∈ g.header)
    {line : Grid.Line} (inName : line ∈ Grid.cellLines name) : line <:+: g.toText := by
  have covers := Grid.widths_cover within g.header List.mem_cons_self
  obtain ⟨i, b, listed, _, padded, shown⟩ := Grid.line_shown covers member inName
  have part : Grid.pad b.1 line ∈ Grid.partsAt i (Grid.blocks g.widths g.header) :=
    List.mem_map.mpr ⟨b, listed, padded⟩
  have inLines : Grid.enclose '|' (Grid.partsAt i (Grid.blocks g.widths g.header)) ∈ g.lines :=
    Grid.mem_lines.mpr (.inr ⟨g.header, List.mem_cons_self, shown⟩)
  exact (pad_holds b.1 line).trans ((Grid.enclose_holds part).trans (text_holds inLines))

/-- A table is rendered by its names and the texts in view alone: two tables that agree in them give one
text, in whatever mode and batches, and without a row in view there is the header's grid. -/
theorem render_ignores_batching {t : Table} (good : t.WellFormed) :
    (∀ (u : Table) (mode other : Mode), u.WellFormed → u.columnNames = t.columnNames →
      u.textsInView other = t.textsInView mode → u.render other = t.render mode) ∧
    (∀ n, t.numRows ≤ n → t.render (.head n) = t.render .full) ∧
    t.render (.head 0) = t.headerGrid.toText ∧
    (t.numRows = 0 → ∀ mode, t.render mode = t.headerGrid.toText) ∧
    (t.headerGrid.Within Grid.maxWidth →
      ∀ name ∈ t.columnNames, ∀ line ∈ Grid.cellLines name, line <:+: t.headerGrid.toText) := by
  have empty : ∀ mode : Mode, mode.limit t.numRows = 0 → t.render mode = t.headerGrid.toText := by
    intro mode none
    rw [render_of_rows good, no_rows_in_view none, Table.headerGrid]
  refine ⟨fun u mode other fits names texts => ?_, fun n enough => ?_, empty _ (Nat.zero_min _), fun none mode => ?_,
    fun within name member line inName => header_line_shown within member inName⟩
  · rw [render_of_rows fits, render_of_rows good, names, texts]
  · have limit : Mode.limit (.head n) t.numRows = Mode.limit .full t.numRows := Nat.min_eq_right enough
    rw [render_of_rows good, render_of_rows good, Table.textsInView, Table.textsInView, limit]
  · apply empty mode
    cases mode with
    | head n => rw [Mode.limit, none, Nat.min_zero]
    | full => exact none

theorem numbers_render_as_texts :
    let numbers : Schema := [⟨"n", .int64, true⟩]
    let texts : Schema := [⟨"n", .text, true⟩]
    let t : Table := ⟨numbers, [.empty numbers, ⟨numbers, 1, [⟨.int64, [some 1]⟩], by decide⟩,
      ⟨numbers, 2, [⟨.int64, [none, some 3]⟩], by decide⟩]⟩
    let u : Table := ⟨texts, [⟨texts, 2, [⟨.text, [some "1", none]⟩], by decide⟩]⟩
    t.WellFormed ∧ u.WellFormed ∧ u.columnNames = t.columnNames ∧ u.textsInView .full = t.textsInView (.head 2) ∧
      u.render .full = t.render (.head 2) := by
  intro numbers texts t u
  have good : t.WellFormed := Table.well_formed_of_schemas t (by simp [t, Batch.empty])
  have fits : u.WellFormed := Table.well_formed_of_schemas u (by simp [u])
  have same : u.textsInView .full = t.textsInView (.head 2) := by decide +kernel
  exact ⟨good, fits, rfl, same, (render_ignores_batching good).1 u (.head 2) .full fits rfl same⟩

end TablePeek
