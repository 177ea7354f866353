import TablePeek.Proofs.Columns
import TablePeek.Proofs.Csv.Writing

set_option autoImplicit false

namespace TablePeek.Csv

open Utf8 (encodeString)

theorem texts_encoded (number : Nat) (row : List String) : texts number (row.map encodeString) = .ok row := by
  induction row generalizing number with
  | nil => rfl
  | cons s row ih =>
    rw [List.map_cons, texts, encodeString, Utf8.decode_encode]
    simp only [ih, Except.map, String.ofList_toList]

theorem check_record_encoded (r : Record) (row : List String) (holds : r.fields = row.map encodeString) :
    checkRecord row.length r = .ok row := by
  rw [checkRecord, holds, if_pos (List.length_map _), texts_encoded]

theorem check_all_encoded (width number : Nat) (records : List Record) (rows : List (List String))
    (hold : records.map Record.fields = rows.map (List.map encodeString))
    (rectangular : ∀ row ∈ rows, row.length = width) : checkAll width number records = .ok rows := by
  induction records generalizing number rows with
  | nil =>
    cases rows with
    | nil => rfl
    | cons row rows => cases hold
  | cons r records ih =>
    cases rows with
    | nil => cases hold
    | cons row rows =>
      obtain ⟨first, others⟩ := List.cons.inj hold
      have rest := ih (number + 1) rows others fun other member => rectangular other (List.mem_cons_of_mem _ member)
      rw [checkAll, ← rectangular row List.mem_cons_self, check_record_encoded r row first,
        rectangular row List.mem_cons_self]
      simp only [rest, Except.map]

theorem sheet_encoded (records : List Record) (header : List String) (rows : List (List String))
    (hold : records.map Record.fields = (header :: rows).map (List.map encodeString))
    (rectangular : ∀ row ∈ rows, row.length = header.length) : sheet records = .ok ⟨header, rows⟩ := by
  cases records with
  | nil => cases hold
  | cons r records =>
    obtain ⟨first, others⟩ := List.cons.inj hold
    have width : r.fields.length = header.length := by rw [first, List.length_map]
    rw [sheet, width, check_record_encoded r header first]
    simp only [check_all_encoded header.length 1 records rows others rectangular, Except.map]

theorem columns_from_length (rows : List (List String)) (number : Nat) (header : List String) :
    (columnsFrom rows number header).length = header.length := by
  induction header generalizing number with
  | nil => rfl
  | cons name rest ih => simp [columnsFrom, ih]

theorem columns_from_at (rows : List (List String)) (number j : Nat) (header : List String)
    (inside : j < header.length) :
    (columnsFrom rows number header)[j]? =
      some (header[j], rows.map fun row => Cell.guess (row.getD (number + j) "")) := by
  induction header generalizing number j with
  | nil => cases inside
  | cons name rest ih =>
    cases j with
    | zero => rfl
    | succ j =>
      rw [columnsFrom, List.getElem?_cons_succ, ih (number + 1) j (Nat.lt_of_succ_lt_succ inside)]
      simp [Nat.add_comm, Nat.add_left_comm]

theorem columns_from_names (rows : List (List String)) (number : Nat) (header : List String) :
    (columnsFrom rows number header).map Prod.fst = header := by
  induction header generalizing number with
  | nil => rfl
  | cons name rest ih => rw [columnsFrom, List.map_cons, ih]

theorem columns_from_equal (rows : List (List String)) (number : Nat) (header : List String) :
    ∀ c ∈ columnsFrom rows number header, c.2.length = rows.length := by
  induction header generalizing number with
  | nil => simp [columnsFrom]
  | cons name rest ih =>
    intro c member
    rcases List.mem_cons.mp member with atHead | inRest
    · rw [atHead, List.length_map]
    · exact ih (number + 1) c inRest

theorem record_nonempty {row : List String} {text : List Char} (written : RecordText row text) : row ≠ [] := by
  cases written <;> exact List.cons_ne_nil _ _

theorem rows_nonempty {rows : List (List String)} {text : List Char} (written : RowsText rows text) :
    ∀ row ∈ rows, row ≠ [] := by
  induction written with
  | none => simp
  | emptyLine _ _ ih => exact ih
  | unended record _ =>
    intro row member
    rw [List.mem_singleton.mp member]
    exact record_nonempty record
  | ended record _ _ _ ih =>
    intro row member
    rcases List.mem_cons.mp member with atHead | inRest
    · rw [atHead]
      exact record_nonempty record
    · exact ih row inRest

theorem load_written {fs : FileSystem} {p : Path} {marked : Bool} {header : List String}
    {rows : List (List String)} {text : List Char} (csv : Format.ofPath p = .csv)
    (found : fs.find p = .ok (.file (.bytes (fileBytes marked text)))) (written : RowsText (header :: rows) text)
    (start : marked = false → text.head? ≠ some '\uFEFF')
    (rectangular : ∀ row ∈ rows, row.length = header.length) :
    fs.load p = Load.tableOf (columnsFrom rows 0 header) := by
  have sheetRead : Csv.read (fileBytes marked text) = .ok (columnsFrom rows 0 header) := by
    rw [Csv.read, sheet_encoded _ header rows (split_written marked written start) rectangular]
    rfl
  simp only [FileSystem.load, Load.opened, found, csv, Load.node, Load.csv, Load.csvBytes, sheetRead]

/-- However a sheet is written, loading it gives its header as column names, a row for each of its
rows, and in each column the cells guessed from the fields in that place. -/
theorem written_sheet_loads {fs : FileSystem} {p : Path} {marked : Bool} {header : List String}
    {rows : List (List String)} {text : List Char} (csv : Format.ofPath p = .csv)
    (found : fs.find p = .ok (.file (.bytes (fileBytes marked text)))) (written : RowsText (header :: rows) text)
    (start : marked = false → text.head? ≠ some '\uFEFF')
    (rectangular : ∀ row ∈ rows, row.length = header.length) :
    ∃ t b, fs.load p = .ok t ∧ t.columnNames = header ∧ t.numRows = rows.length ∧ t.batches = [b] ∧
      b.schema = t.schema ∧ b.rows = rows.length ∧ b.columns.length = header.length ∧
      ∀ j < header.length, b.columns[j]? = some (.infer (rows.map fun row => .guess (row.getD j ""))) := by
  have names := columns_from_names rows 0 header
  have nonempty : columnsFrom rows 0 header ≠ [] := by
    intro none
    rw [none] at names
    exact rows_nonempty written header List.mem_cons_self names.symm
  rw [load_written csv found written start rectangular,
    table_of_cells nonempty (columns_from_equal rows 0 header)]
  refine ⟨_, _, rfl, ?_, single_batch_rows _ _, rfl, rfl, rfl, ?_, ?_⟩
  · rw [Table.columnNames, Batch.of_cells_names, names]
  · rw [Batch.of_cells_columns, List.length_map, columns_from_length]
  · intro j inside
    rw [Batch.of_cells_columns, List.getElem?_map, columns_from_at rows 0 j header inside, Nat.zero_add]
    rfl

theorem mixed_sheet_loads :
    let text := ['a', ',', '"', 'b', '"', '"', '"', '\r', '\n', '\n', '1', ',', '\r', '"', 'x', '\n', '"', ',', '2']
    let fs : FileSystem := ⟨[([encodeString "a.csv"], .file (.bytes (fileBytes true text)))], []⟩
    ∃ t b, fs.load (encodeString "a.csv") = .ok t ∧ t.columnNames = ["a", "b\""] ∧ t.numRows = 2 ∧
      t.batches = [b] ∧ b.columns[0]? = some (.infer [.integer 1, .text "x\n"]) ∧
      b.columns[1]? = some (.infer [.null, .integer 2]) := by
  intro text fs
  have found : fs.find (encodeString "a.csv") = .ok (.file (.bytes (fileBytes true text))) := rfl
  have header : RecordText ["a", "b\""] ['a', ',', '"', 'b', '"', '"', '"'] :=
    .more (.bare "a" (by simp [Special])) (.one (.quoted "b\""))
  have first : RecordText ["1", ""] ['1', ','] := .more (.bare "1" (by simp [Special])) (.one (.bare "" (by simp)))
  have second : RecordText ["x\n", "2"] ['"', 'x', '\n', '"', ',', '2'] :=
    .more (.quoted "x\n") (.one (.bare "2" (by simp [Special])))
  have written : RowsText [["a", "b\""], ["1", ""], ["x\n", "2"]] text :=
    .ended header (by simp) .both (.emptyLine .lineFeed
      (.ended first (by simp) .carriageReturn (.unended second (by simp))))
  obtain ⟨t, b, loaded, names, rows, only, _, _, _, columns⟩ :=
    written_sheet_loads (p := encodeString "a.csv") (by decide +kernel) found written (by simp) (by simp)
  exact ⟨t, b, loaded, names, rows, only, columns 0 (by decide), columns 1 (by decide)⟩

end TablePeek.Csv
