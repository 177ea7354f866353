import TablePeek.Proofs.Grid.Bars
import TablePeek.Proofs.Grid.Heights

set_option autoImplicit false

namespace TablePeek

namespace Grid

structure Legible (limit : Nat) (s : String) : Prop where
  whole : '\n' ∉ s.toList
  ended : s.toList.getLast? ≠ some ' '
  fits : Width.ofText s.toList ≤ limit

instance (limit : Nat) (s : String) : Decidable (Legible limit s) :=
  decidable_of_iff ('\n' ∉ s.toList ∧ s.toList.getLast? ≠ some ' ' ∧ Width.ofText s.toList ≤ limit)
    ⟨fun ⟨whole, ended, fits⟩ => ⟨whole, ended, fits⟩, fun legible => ⟨legible.whole, legible.ended, legible.fits⟩⟩

section Row

variable {ws : List Nat} {cells : List String} {limit most : Nat} {s : String}

theorem legible_wider (legible : Legible limit s) (wider : limit ≤ most) : Legible most s :=
  ⟨legible.whole, legible.ended, Nat.le_trans legible.fits wider⟩

theorem legible_lines (legible : Legible limit s) : cellLines s = [s.toList] := List.splitOn_eq_singleton legible.whole

theorem legible_width (legible : Legible limit s) : cellWidth s = Width.ofText s.toList := by
  rw [cellWidth, legible_lines legible, List.map_singleton, List.foldl_cons, List.foldl_nil, Nat.zero_max]

theorem first_parts (covers : Covers ws cells) (paired : cells.length = ws.length)
    (legible : ∀ s ∈ cells, Legible limit s) :
    partsAt 0 (blocks ws cells) = (ws.zip (cells.map String.toList)).map fun c => pad c.1 c.2 := by
  induction ws generalizing cells with
  | nil => rfl
  | cons w ws ih =>
    cases cells with
    | nil => cases paired
    | cons s rest =>
      rw [List.forall_mem_cons] at legible
      have first : partAt 0 (w, block w s) = pad w s.toList := by
        rw [partAt, block_covered w s covers.1, legible_lines legible.1]
        rfl
      have later := ih covers.2 (Nat.succ.inj paired) legible.2
      rw [partsAt] at later
      rw [blocks, partsAt, List.map_cons, first, later, List.map_cons, List.zip_cons_cons, List.map_cons]

theorem enclose_barred {cells : Cells} (filled : cells ≠ []) :
    enclose '|' (cells.map fun c => pad c.1 c.2) = '|' :: barred cells := by
  have drawn : cells.map (fun c => pad c.1 c.2) ≠ [] := mt List.map_eq_nil_iff.mp filled
  rw [enclose, List.cons_append, intercalate_ended _ drawn, List.flatMap_map, barred]

theorem row_of_legible (columns : ws ≠ []) (covers : Covers ws cells) (paired : cells.length = ws.length)
    (legible : ∀ s ∈ cells, Legible limit s) : rowLines ws cells = ['|' :: barred (ws.zip (cells.map String.toList))] := by
  have single : tall cells = 1 := (tall_one cells).mpr fun s member => (legible s member).whole
  have filled : ws.zip (cells.map String.toList) ≠ [] := by
    intro none
    have length := congrArg List.length none
    rw [List.length_zip, List.length_map, paired, Nat.min_self] at length
    exact columns (List.eq_nil_of_length_eq_zero length)
  rw [rowLines, row_lines_from, height_of_row covers columns, single, List.range_one, List.map_singleton,
    first_parts covers paired legible, enclose_barred filled]

theorem row_cell (covers : Covers ws cells) (legible : ∀ s ∈ cells, Legible limit s) :
    ∀ c ∈ ws.zip (cells.map String.toList), Width.ofText c.2 ≤ c.1 ∧ c.1 ∈ ws ∧ c.2.getLast? ≠ some ' ' := by
  induction ws generalizing cells with
  | nil => simp
  | cons w ws ih =>
    cases cells with
    | nil => simp
    | cons s rest =>
      rw [List.forall_mem_cons] at legible
      rw [List.map_cons, List.zip_cons_cons, List.forall_mem_cons]
      refine ⟨⟨legible_width legible.1 ▸ covers.1, List.mem_cons_self, legible.1.ended⟩, fun c member => ?_⟩
      have later := ih covers.2 legible.2 c member
      exact ⟨later.1, List.mem_cons_of_mem w later.2.1, later.2.2⟩

end Row

section Border

variable {ws vs : List Nat}

theorem rule_free (w : Nat) : '+' ∉ rule w := fun member => absurd (List.eq_of_mem_replicate member) (by decide)

theorem split_border (columns : ws ≠ []) : List.splitOn '+' (border ws) = [] :: ws.map rule ++ [[]] := by
  have joined : border ws = [] ++ '+' :: (['+'].intercalate (ws.map rule) ++ '+' :: []) := rfl
  have free : ∀ part ∈ ws.map rule, '+' ∉ part := List.forall_mem_map.mpr fun w _ => rule_free w
  rw [joined, List.splitOn_append_cons_self_of_not_mem List.not_mem_nil,
    split_on_intercalate_behind _ _ (by simpa using columns) free]
  rfl

theorem border_tells (columns : ws ≠ []) (otherColumns : vs ≠ []) (same : border ws = border vs) :
    ws.map padded = vs.map padded := by
  have parts := congrArg (List.splitOn '+') same
  rw [split_border columns, split_border otherColumns] at parts
  have rules := List.append_cancel_right (List.cons.inj parts).2
  have lengths := congrArg (List.map List.length) rules
  simpa [rule, Function.comp_def] using lengths

theorem max_widths_length (vs ws : List Nat) : (maxWidths vs ws).length = max vs.length ws.length := by
  induction vs generalizing ws with
  | nil => simp [maxWidths]
  | cons v vs ih =>
    cases ws with
    | nil => simp [maxWidths]
    | cons w ws => rw [maxWidths, List.length_cons, List.length_cons, List.length_cons, ih, Nat.succ_max_succ]

theorem fold_widths_length (rows : List (List String)) (ws : List Nat) (equal : ∀ row ∈ rows, row.length = ws.length) :
    (rows.foldl (fun ws row => maxWidths ws (row.map cellWidth)) ws).length = ws.length := by
  induction rows generalizing ws with
  | nil => rfl
  | cons row rest ih =>
    rw [List.forall_mem_cons] at equal
    have kept : (maxWidths ws (row.map cellWidth)).length = ws.length := by
      rw [max_widths_length, List.length_map, equal.1, Nat.max_self]
    rw [List.foldl_cons, ih _ fun other member => (equal.2 other member).trans kept.symm, kept]

theorem widths_length {g : Grid} (rectangular : ∀ row ∈ g.rows, row.length = g.header.length) :
    g.widths.length = g.header.length := by
  have kept := fold_widths_length g.rows (g.header.map cellWidth) (by simpa using rectangular)
  rw [List.length_map] at kept
  rw [widths, List.length_map, List.foldl_cons, maxWidths]
  exact kept

end Border

structure Readable (limit : Nat) (g : Grid) : Prop where
  columns : g.header ≠ []
  rectangular : ∀ row ∈ g.rows, row.length = g.header.length
  legible : ∀ row ∈ g.header :: g.rows, ∀ s ∈ row, Legible limit s

namespace Readable

variable {g h : Grid} {limit most : Nat}

theorem within (readable : g.Readable limit) : g.Within limit := by
  intro row shown s member line inCell
  have legible := readable.legible row shown s member
  rw [legible_lines legible, List.mem_singleton] at inCell
  exact inCell ▸ legible.fits

theorem covered (readable : g.Readable limit) (room : limit ≤ maxWidth) : ∀ row ∈ g.header :: g.rows, Covers g.widths row :=
  widths_cover fun row shown s member line inCell => Nat.le_trans (readable.within row shown s member line inCell) room

theorem widths_nonempty (readable : g.Readable limit) : g.widths ≠ [] := by
  intro none
  have length := widths_length readable.rectangular
  rw [none] at length
  exact readable.columns (List.eq_nil_of_length_eq_zero length.symm)

theorem paired (readable : g.Readable limit) : ∀ row ∈ g.header :: g.rows, row.length = g.widths.length := by
  rw [widths_length readable.rectangular, List.forall_mem_cons]
  exact ⟨rfl, readable.rectangular⟩

def cells (g : Grid) (row : List String) : Cells := g.widths.zip (row.map String.toList)

theorem lines (readable : g.Readable limit) (room : limit ≤ maxWidth) :
    g.lines = border g.widths :: ('|' :: barred (cells g g.header)) :: border g.widths ::
      (g.rows.map (fun row => '|' :: barred (cells g row)) ++ [border g.widths]) := by
  have single : ∀ row ∈ g.header :: g.rows, rowLines g.widths row = ['|' :: barred (cells g row)] := fun row shown =>
    row_of_legible readable.widths_nonempty (readable.covered room row shown) (readable.paired row shown) (readable.legible row shown)
  rw [List.forall_mem_cons] at single
  have rows : g.rows.flatMap (rowLines g.widths) = g.rows.map fun row => '|' :: barred (cells g row) := by
    rw [List.flatMap_congr single.2, List.map_eq_flatMap]
  rw [Grid.lines, single.1, rows]
  rfl

theorem row_fit (readable : g.Readable limit) (least : 1 ≤ limit) (room : limit ≤ maxWidth) :
    Fit limit (cells g g.header) := fun c member =>
  have shown : g.header ∈ g.header :: g.rows := List.mem_cons_self
  have cell := row_cell (readable.covered room _ shown) (readable.legible _ shown) c member
  ⟨cell.1, widths_within least readable.within c.1 cell.2.1⟩

theorem row_ended (readable : g.Readable limit) (room : limit ≤ maxWidth) :
    ∀ row ∈ g.header :: g.rows, Ended (cells g row) := fun row shown c member =>
  have cell := row_cell (readable.covered room row shown) (readable.legible row shown) c member
  ⟨cell.1, cell.2.2⟩

theorem lines_plain (readable : g.Readable limit) (room : limit ≤ maxWidth) : ∀ l ∈ g.lines, '\n' ∉ l :=
  lines_free fun row shown s member line inCell => Nat.le_trans (readable.within row shown s member line inCell) room

theorem cells_widths (readable : g.Readable limit) :
    ∀ row ∈ g.header :: g.rows, (cells g row).map Prod.fst = g.widths := fun row shown =>
  List.map_fst_zip (by rw [List.length_map, readable.paired row shown])

theorem cells_texts (readable : g.Readable limit) :
    ∀ row ∈ g.header :: g.rows, (cells g row).map Prod.snd = row.map String.toList := fun row shown =>
  List.map_snd_zip (by rw [List.length_map, readable.paired row shown])

theorem row_read (readable : g.Readable limit) (other : h.Readable most) (room : limit ≤ maxWidth)
    (otherRoom : most ≤ maxWidth) (widths : g.widths = h.widths) {row otherRow : List String}
    (shown : row ∈ g.header :: g.rows) (otherShown : otherRow ∈ h.header :: h.rows)
    (same : '|' :: barred (cells g row) = '|' :: barred (cells h otherRow)) : row = otherRow := by
  have level : (cells g row).map Prod.fst = (cells h otherRow).map Prod.fst := by
    rw [readable.cells_widths row shown, other.cells_widths otherRow otherShown, widths]
  have bar : ['|'] <:+ ['|'] := List.suffix_rfl
  have equal := cells_from_line level (readable.row_ended room row shown) (other.row_ended otherRoom otherRow otherShown) bar same
  have texts := congrArg (List.map Prod.snd) equal
  rw [readable.cells_texts row shown, other.cells_texts otherRow otherShown] at texts
  exact (List.map_injective_iff.mpr fun s t same => String.toList_inj.mp same) texts

-- The header stands in every grid, so the widths can be had from it.
theorem widths_read (readable : g.Readable 65534) (other : h.Readable 65535) (drawn : border g.widths = border h.widths)
    (same : '|' :: barred (cells g g.header) = '|' :: barred (cells h h.header)) : g.widths = h.widths := by
  have header := readable.cells_widths _ List.mem_cons_self
  have otherHeader := other.cells_widths _ List.mem_cons_self
  have alike : DrawnAlike (cells g g.header) (cells h h.header) := by
    have padded := border_tells readable.widths_nonempty other.widths_nonempty drawn
    rw [← header, ← otherHeader, List.map_map, List.map_map, ← List.forall₂_eq_eq_eq, List.forall₂_map_left_iff,
      List.forall₂_map_right_iff] at padded
    exact padded
  have bar : ['|'] <:+ ['|'] := List.suffix_rfl
  rw [← header, ← otherHeader]
  exact widths_from_line alike (readable.row_fit (by decide) (by decide)) (other.row_fit (by decide) (by decide)) bar bar
    rfl same

theorem grid_read (readable : g.Readable 65534) (other : h.Readable 65535) (same : g.toText = h.toText) : g = h := by
  have room : 65534 ≤ maxWidth := by decide
  have otherRoom : 65535 ≤ maxWidth := by decide
  have lines : g.lines = h.lines := by
    have split := congrArg (List.splitOn '\n') same
    rwa [toText, toText, List.splitOn_intercalate '\n' (readable.lines_plain room) (List.cons_ne_nil _ _),
      List.splitOn_intercalate '\n' (other.lines_plain otherRoom) (List.cons_ne_nil _ _)] at split
  rw [readable.lines room, other.lines otherRoom] at lines
  obtain ⟨drawn, below⟩ := List.cons.inj lines
  obtain ⟨header, framed⟩ := List.cons.inj below
  have widths := readable.widths_read other drawn header
  rw [drawn] at framed
  have rows := List.append_cancel_right (List.cons.inj framed).2
  have headers := readable.row_read other room otherRoom widths List.mem_cons_self List.mem_cons_self header
  have length : g.rows.length = h.rows.length := by simpa using congrArg List.length rows
  have texts : g.rows = h.rows := by
    apply List.ext_getElem length
    intro i inside otherInside
    have line := congrArg (fun l => l[i]?) rows
    simp only [List.getElem?_map, List.getElem?_eq_getElem inside, List.getElem?_eq_getElem otherInside, Option.map_some,
      Option.some.injEq] at line
    exact readable.row_read other room otherRoom widths (List.mem_cons_of_mem _ (List.getElem_mem inside))
      (List.mem_cons_of_mem _ (List.getElem_mem otherInside)) line
  obtain ⟨names, cells⟩ := g
  obtain ⟨otherNames, otherCells⟩ := h
  exact congrArg₂ Grid.mk headers texts

end Readable

end Grid

section Table

variable {t u : Table} {mode other : Mode} {limit : Nat}

def Table.Legible (t : Table) (mode : Mode) (limit : Nat) : Prop :=
  ∀ row ∈ t.columnNames :: t.textsInView mode, ∀ s ∈ row, Grid.Legible limit s

theorem row_list_columns (good : t.WellFormed) : ∀ row ∈ t.rowList, row.length = t.columnNames.length := by
  intro row member
  obtain ⟨b, inTable, inBatch⟩ := List.mem_flatMap.mp member
  obtain ⟨i, _, rfl⟩ := List.mem_map.mp inBatch
  rw [List.length_map, List.length_map, Table.columnNames, List.length_map, (good.batches b inTable).columns.length_eq]

theorem readable_grid (good : t.WellFormed) (columns : t.schema ≠ []) (legible : t.Legible mode limit) :
    Grid.Readable limit ⟨t.columnNames, t.textsInView mode⟩ where
  columns := by simpa [Table.columnNames] using columns
  rectangular row member := by
    obtain ⟨values, inView, rfl⟩ := List.mem_map.mp member
    rw [List.length_map, row_list_columns good values (List.mem_of_mem_take inView)]
  legible := legible

/-- What is on show can be read off the rendered text, names and cells, as long as no text on show breaks a line,
ends with a blank or is wider than a column can be; one of two tables with one text must stay clear of that width. -/
theorem rendered_texts_read_back (good : t.WellFormed) (fits : u.WellFormed) (columns : t.schema ≠ [])
    (otherColumns : u.schema ≠ []) (legible : t.Legible mode 65534) (otherLegible : u.Legible other 65535)
    (same : t.render mode = u.render other) :
    t.numColumns = u.numColumns ∧ t.columnNames = u.columnNames ∧ mode.limit t.numRows = other.limit u.numRows ∧
      t.textsInView mode = u.textsInView other := by
  rw [render_of_rows good, render_of_rows fits] at same
  have grids := (readable_grid good columns legible).grid_read (readable_grid fits otherColumns otherLegible) same
  obtain ⟨names, texts⟩ := Grid.mk.inj grids
  have count := congrArg List.length names
  rw [Table.columnNames, Table.columnNames, List.length_map, List.length_map] at count
  exact ⟨count, names, by rw [← texts_in_view_length, texts, texts_in_view_length], texts⟩

theorem bars_in_texts_read_back :
    let numbers : Schema := [⟨"n |", .int64, true⟩, ⟨"", .text, false⟩]
    let texts : Schema := [⟨"n |", .text, true⟩, ⟨"", .text, false⟩]
    let t : Table := ⟨numbers, [⟨numbers, 1, [⟨.int64, [some 12]⟩, ⟨.text, [some "| 日本 |"]⟩], by decide⟩,
      ⟨numbers, 1, [⟨.int64, [none]⟩, ⟨.text, [some "+--+"]⟩], by decide⟩]⟩
    let u : Table := ⟨texts, [⟨texts, 3, [⟨.text, [some "12", some "", some "x"]⟩,
      ⟨.text, [some "| 日本 |", some "+--+", some "\n"]⟩], by decide⟩]⟩
    t.WellFormed ∧ u.WellFormed ∧ t.Legible .full 65534 ∧ u.Legible (.head 2) 65535 ∧
      t.render .full = u.render (.head 2) ∧ t.textsInView .full = u.textsInView (.head 2) := by
  intro numbers texts t u
  have good : t.WellFormed := Table.well_formed_of_schemas t (by simp [t])
  have fits : u.WellFormed := Table.well_formed_of_schemas u (by simp [u])
  have legible : t.Legible .full 65534 := by
    rw [Table.Legible]
    decide +kernel
  have otherLegible : u.Legible (.head 2) 65535 := by
    rw [Table.Legible]
    decide +kernel
  have same : t.render .full = u.render (.head 2) := by decide +kernel
  have read := rendered_texts_read_back good fits (List.cons_ne_nil _ _) (List.cons_ne_nil _ _) legible otherLegible same
  exact ⟨good, fits, legible, otherLegible, same, read.2.2.2⟩

section Widest

def namesOnly (names : List String) : Table :=
  let schema : Schema := names.map fun name => ⟨name, .text, false⟩
  ⟨schema, [.empty schema]⟩

variable {line : Grid.Line} {w : Nat}

theorem names_only_names (names : List String) : (namesOnly names).columnNames = names := by
  simp [namesOnly, Table.columnNames, Function.comp_def]

theorem names_only_well_formed (names : List String) : (namesOnly names).WellFormed :=
  Table.well_formed_of_schemas _ (List.forall_mem_singleton.mpr rfl)

theorem names_only_texts (names : List String) : (namesOnly names).textsInView .full = [] :=
  no_rows_in_view rfl

theorem names_only_render (names : List String) : (namesOnly names).render .full = (Grid.mk names []).toText := by
  rw [render_of_rows (names_only_well_formed names), names_only_names, names_only_texts]

theorem names_only_legible {names : List String} (legible : ∀ s ∈ names, Grid.Legible limit s) :
    (namesOnly names).Legible .full limit := by
  rw [Table.Legible, names_only_names, names_only_texts, List.forall_mem_cons]
  exact ⟨legible, by simp⟩

theorem pad_full (full : Width.ofText line = w) : Grid.pad w line = ' ' :: (line ++ [' ']) := by
  rw [Grid.pad, full, Nat.sub_self, List.replicate_zero, List.append_nil, List.cons_append]

theorem before_width (line : Grid.Line) : Width.ofText ('|' :: ' ' :: line) = Width.ofText line + 2 := by
  rw [Width.of_text_led Width.bar_parts, Width.of_text_led Width.space_parts]
  omega

theorem behind_width (line : Grid.Line) : Width.ofText (line ++ [' ', '|']) = Width.ofText line + 2 := by
  rw [Width.of_text_parted Width.space_parts, Grid.of_text_bar]

def barBefore (line : Grid.Line) : String := String.ofList ('|' :: ' ' :: line)

def barBehind (line : Grid.Line) : String := String.ofList (line ++ [' ', '|'])

theorem bar_before_text (line : Grid.Line) : (barBefore line).toList = '|' :: ' ' :: line := String.toList_ofList

theorem bar_behind_text (line : Grid.Line) : (barBehind line).toList = line ++ [' ', '|'] := String.toList_ofList

theorem bar_before_legible (nonempty : line ≠ []) (legible : Grid.Legible limit (String.ofList line)) :
    Grid.Legible (limit + 2) (barBefore line) := by
  obtain ⟨plain, ended, fits⟩ := legible
  obtain ⟨c, rest, rfl⟩ := List.exists_cons_of_ne_nil nonempty
  rw [String.toList_ofList] at plain ended fits
  refine ⟨?_, ?_, ?_⟩ <;> rw [bar_before_text]
  · simpa using plain
  · simpa using ended
  · rw [before_width]
    exact Nat.add_le_add_right fits 2

theorem bar_behind_legible (legible : Grid.Legible limit (String.ofList line)) :
    Grid.Legible (limit + 2) (barBehind line) := by
  obtain ⟨plain, _, fits⟩ := legible
  rw [String.toList_ofList] at plain fits
  refine ⟨?_, ?_, ?_⟩ <;> rw [bar_behind_text]
  · simpa using plain
  · simp
  · rw [behind_width]
    exact Nat.add_le_add_right fits 2

theorem names_widths (names : List String) (legible : ∀ s ∈ names, Grid.Legible 65535 s) :
    (Grid.mk names []).widths = names.map fun s => max 1 (Width.ofText s.toList) := by
  have start : (Grid.mk names []).widths = (names.map Grid.cellWidth).map fun w => max 1 (min Grid.maxWidth w) := rfl
  rw [start, List.map_map]
  apply List.map_congr_left
  intro s member
  have fits : Width.ofText s.toList ≤ Grid.maxWidth := (legible s member).fits
  rw [Function.comp_apply, Grid.legible_width (legible s member), Nat.min_eq_right fits]

theorem names_readable {names : List String} (nonempty : names ≠ []) (legible : ∀ s ∈ names, Grid.Legible limit s) :
    Grid.Readable limit ⟨names, []⟩ :=
  ⟨nonempty, by simp, by simpa using legible⟩

theorem bar_moves (before : ∀ s ∈ [String.ofList line, barBefore line], Grid.Legible 65535 s)
    (behind : ∀ s ∈ [barBehind line, String.ofList line], Grid.Legible 65535 s) (wide : Width.ofText line = 65533) :
    (namesOnly [String.ofList line, barBefore line]).render .full =
      (namesOnly [barBehind line, String.ofList line]).render .full := by
  have widths : (Grid.mk [String.ofList line, barBefore line] []).widths = [65533, 65535] := by
    rw [names_widths _ before]
    simp only [List.map_cons, List.map_nil, String.toList_ofList, bar_before_text, before_width, wide]
    rfl
  have otherWidths : (Grid.mk [barBehind line, String.ofList line] []).widths = [65535, 65533] := by
    rw [names_widths _ behind]
    simp only [List.map_cons, List.map_nil, String.toList_ofList, bar_behind_text, behind_width, wide]
    rfl
  have borders : Grid.border [65533, 65535] = Grid.border [65535, 65533] := rfl
  have headers : Grid.barred ([65533, 65535].zip [line, '|' :: ' ' :: line]) =
      Grid.barred ([65535, 65533].zip [line ++ [' ', '|'], line]) := by
    simp [Grid.barred, pad_full, wide, before_width, behind_width]
  rw [names_only_render, names_only_render, Grid.toText, Grid.toText,
    (names_readable (List.cons_ne_nil _ _) before).lines (by decide),
    (names_readable (List.cons_ne_nil _ _) behind).lines (by decide), Grid.Readable.cells, Grid.Readable.cells, widths,
    otherWidths, borders]
  simp only [List.map_cons, List.map_nil, String.toList_ofList, bar_before_text, bar_behind_text, headers]

theorem letters_width (n : Nat) : Width.ofText (List.replicate n 'a') = n :=
  Width.of_text_replicate (Width.parts_of_plain (by decide) (by decide)) n

theorem letters_legible (n : Nat) : Grid.Legible n (String.ofList (List.replicate n 'a')) := by
  refine ⟨?_, ?_, ?_⟩ <;> rw [String.toList_ofList]
  · exact fun member => absurd (List.eq_of_mem_replicate member) (by decide)
  · exact fun last => absurd (List.eq_of_mem_replicate (List.mem_of_getLast? last)) (by decide)
  · exact Nat.le_of_eq (letters_width n)

end Widest

-- A column at its widest is drawn two columns short, so the bar before a text and the bar behind one look alike.
theorem full_columns_share_a_bar :
    let line := List.replicate 65533 'a'
    let t := namesOnly [String.ofList line, barBefore line]
    let u := namesOnly [barBehind line, String.ofList line]
    t.WellFormed ∧ u.WellFormed ∧ t.schema ≠ [] ∧ u.schema ≠ [] ∧ t.Legible .full 65535 ∧ u.Legible .full 65535 ∧
      t.render .full = u.render .full ∧ t.columnNames ≠ u.columnNames := by
  intro line t u
  have legible : Grid.Legible 65533 (String.ofList line) := letters_legible 65533
  have narrow : Grid.Legible 65535 (String.ofList line) := Grid.legible_wider legible (by decide)
  have nonempty : line ≠ [] := List.cons_ne_nil 'a' (List.replicate 65532 'a')
  have before : ∀ s ∈ [String.ofList line, barBefore line], Grid.Legible 65535 s := by
    simpa using ⟨narrow, bar_before_legible nonempty legible⟩
  have behind : ∀ s ∈ [barBehind line, String.ofList line], Grid.Legible 65535 s := by
    simpa using ⟨bar_behind_legible legible, narrow⟩
  have different : t.columnNames ≠ u.columnNames := by
    rw [names_only_names, names_only_names]
    intro same
    have first := congrArg String.toList (List.cons.inj same).1
    rw [bar_behind_text, String.toList_ofList] at first
    simpa using congrArg List.length first
  exact ⟨names_only_well_formed _, names_only_well_formed _, List.cons_ne_nil _ _, List.cons_ne_nil _ _,
    names_only_legible before, names_only_legible behind, bar_moves before behind (letters_width 65533), different⟩

end Table

end TablePeek
