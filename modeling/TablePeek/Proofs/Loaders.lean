import TablePeek.Proofs.Csv.Table
import TablePeek.Proofs.Json.Records
import TablePeek.Proofs.Json.Text

set_option autoImplicit false

namespace TablePeek

open Utf8 (encode encodeString)

namespace Csv

def quotedField (s : String) : List Char := '"' :: (s.toList.flatMap doubled ++ ['"'])

def quotedRecord : List String → List Char
  | [] => []
  | [s] => quotedField s
  | s :: t :: row => quotedField s ++ ',' :: quotedRecord (t :: row)

def quotedSheet (ending : List Char) (rows : List (List String)) : List Char :=
  rows.flatMap fun row => quotedRecord row ++ ending

theorem quoted_record_text (s : String) (row : List String) :
    RecordText (s :: row) (quotedRecord (s :: row)) := by
  induction row generalizing s with
  | nil => exact .one (.quoted s)
  | cons t row ih => exact .more (.quoted s) (ih t)

theorem quoted_record_head (s : String) (row : List String) : (quotedRecord (s :: row)).head? = some '"' := by
  cases row <;> rfl

theorem quoted_sheet_text {ending : List Char} (ends : Ending ending) (rows : List (List String))
    (filled : ∀ row ∈ rows, row ≠ []) : RowsText rows (quotedSheet ending rows) := by
  induction rows with
  | nil => exact .none
  | cons row rows ih =>
    have others := ih fun other member => filled other (List.mem_cons_of_mem _ member)
    obtain ⟨s, row, rfl⟩ := List.exists_cons_of_ne_nil (filled row List.mem_cons_self)
    have visible : quotedRecord (s :: row) ≠ [] := by
      intro none
      have head := quoted_record_head s row
      rw [none] at head
      cases head
    rw [quotedSheet, List.flatMap_cons, List.append_assoc]
    exact .ended (quoted_record_text s row) visible ends others

end Csv

namespace Cell

-- A float has no part in it: its JSON text may be a numeral that another cell has as well.
inductive Plain : Cell → Prop where
  | null : Plain .null
  | bool (b : Bool) : Plain (.bool b)
  | integer (i : Int64) : Plain (.integer i)
  | text (s : String) (stays : guess s = .text s) : Plain (.text s)

def toJson : Cell → Json.Value
  | .null => .null
  | .bool b => .bool b
  | .integer i => .integer i.toInt
  | .float x => .float x
  | .text s => .string s

theorem int64_range (i : Int64) : -0x8000000000000000 ≤ i.toInt ∧ i.toInt < 0x8000000000000000 :=
  ⟨i.le_toInt, i.toInt_lt⟩

theorem of_json_to_json (c : Cell) : Cell.ofJson c.toJson = c := by
  cases c with
  | integer i => rw [toJson, Cell.ofJson, if_pos (int64_range i), Int64.ofInt_toInt]
  | _ => rfl

theorem guess_to_text (c : Cell) (plain : c.Plain) : guess c.toText = c := by
  cases plain with
  | null => rfl
  | bool b => cases b <;> rfl
  | text s stays => exact stays
  | integer i => exact guess_integer_text i

theorem written_to_json (depth : Nat) (c : Cell) (plain : c.Plain) : Json.Written depth c.toJson := by
  cases plain with
  | null => exact .null depth
  | bool b => exact .bool depth b
  | integer i => exact .integer depth _ (int64_range i).1 (Int.lt_trans (int64_range i).2 (by decide))
  | text s _ => exact .string depth s

end Cell

namespace Json

def recordOf (names : List String) (row : List Cell) : Record := names.zip (row.map Cell.toJson)

def recordsOf (names : List String) (rows : List (List Cell)) : List Record := rows.map (recordOf names)

def listOf (records : List Record) : Value := .array (records.map Value.object)

variable {names : List String} {rows : List (List Cell)}

theorem keys_record_of (row : List Cell) (rectangular : row.length = names.length) :
    keys (recordOf names row) = names := by
  rw [keys, recordOf, List.map_fst_zip (by simp [rectangular])]

theorem records_of_keys (distinct : names.Nodup) (rectangular : ∀ row ∈ rows, row.length = names.length) :
    ∀ r ∈ recordsOf names rows, (keys r).Nodup := by
  intro r member
  obtain ⟨row, inRows, rfl⟩ := List.mem_map.mp member
  rw [keys_record_of row (rectangular row inRows)]
  exact distinct

-- The first record has every key already, so the others bring no new one.
theorem first_keys_of (distinct : names.Nodup) (nonempty : rows ≠ [])
    (rectangular : ∀ row ∈ rows, row.length = names.length) : firstKeys (recordsOf names rows) = names := by
  obtain ⟨row, rest, rfl⟩ := List.exists_cons_of_ne_nil nonempty
  have first := keys_record_of row (rectangular row List.mem_cons_self)
  have later : ((rest.map (recordOf names)).flatMap keys).removeAll names = [] := by
    apply List.filter_eq_nil_iff.mpr
    intro k member
    obtain ⟨r, inRest, inRecord⟩ := List.mem_flatMap.mp member
    obtain ⟨other, among, rfl⟩ := List.mem_map.mp inRest
    rw [keys_record_of other (rectangular other (List.mem_cons_of_mem _ among))] at inRecord
    simpa using inRecord
  rw [firstKeys, recordsOf, List.map_cons, List.flatMap_cons, first, List.eraseDups_append, later,
    erase_dups_nodup names distinct]
  exact List.append_nil names

theorem cell_of_record (distinct : names.Nodup) (row : List Cell) (j : Nat) (inside : j < names.length)
    (rectangular : row.length = names.length) :
    cellOf (recordOf names row) names[j] = row.getD j .null := by
  have inRow : j < row.length := rectangular ▸ inside
  have member : (names[j], row[j].toJson) ∈ recordOf names row := by
    have place : j < (recordOf names row).length := by
      rw [recordOf, List.length_zip, List.length_map, rectangular, Nat.min_self]
      exact inside
    have there : (recordOf names row)[j] = (names[j], row[j].toJson) := by simp [recordOf]
    exact there ▸ List.getElem_mem place
  rw [cell_of_member _ _ _ (by rwa [keys_record_of row rectangular]) member, Cell.of_json_to_json]
  simp [inRow]

theorem tabulate_length (distinct : names.Nodup) (nonempty : rows ≠ [])
    (rectangular : ∀ row ∈ rows, row.length = names.length) :
    (tabulate (recordsOf names rows)).length = names.length := by
  rw [tabulate, first_keys_of distinct nonempty rectangular, List.length_map]

theorem tabulate_at (distinct : names.Nodup) (nonempty : rows ≠ [])
    (rectangular : ∀ row ∈ rows, row.length = names.length) (j : Nat) (inside : j < names.length) :
    (tabulate (recordsOf names rows))[j]? =
      some (names[j], rows.map fun row => row.getD j .null) := by
  have cells : (recordsOf names rows).map (fun r => cellOf r names[j]) =
      rows.map fun row => row.getD j .null := by
    rw [recordsOf, List.map_map]
    exact List.map_congr_left fun row member => cell_of_record distinct row j inside (rectangular row member)
  rw [tabulate, first_keys_of distinct nonempty rectangular, List.getElem?_map, List.getElem?_eq_getElem inside,
    Option.map_some, cells]

theorem written_list_of (depth : Nat) (distinct : names.Nodup)
    (rectangular : ∀ row ∈ rows, row.length = names.length) (plain : ∀ row ∈ rows, ∀ c ∈ row, c.Plain) :
    Written (depth + 2) (listOf (recordsOf names rows)) := by
  apply written_records depth _ (records_of_keys distinct rectangular)
  intro r inRecords m member
  obtain ⟨row, inRows, rfl⟩ := List.mem_map.mp inRecords
  obtain ⟨c, inRow, same⟩ := List.mem_map.mp (List.of_mem_zip member).2
  rw [← same]
  exact Cell.written_to_json depth c (plain row inRows c inRow)

end Json

section Agreement

variable {fs : FileSystem} {p q : Path} {names : List String} {rows : List (List Cell)}

theorem columns_from_rows (distinct : names.Nodup) (nonempty : rows ≠ [])
    (rectangular : ∀ row ∈ rows, row.length = names.length) (plain : ∀ row ∈ rows, ∀ c ∈ row, c.Plain) :
    Csv.columnsFrom (rows.map (List.map Cell.toText)) 0 names = Json.tabulate (Json.recordsOf names rows) := by
  refine List.ext_getElem? fun j => ?_
  by_cases inside : j < names.length
  · rw [Csv.columns_from_at _ 0 j names inside, Json.tabulate_at distinct nonempty rectangular j inside,
      Nat.zero_add, List.map_map]
    refine congrArg (fun cells => some (names[j], cells)) (List.map_congr_left fun row member => ?_)
    have inRow : j < row.length := rectangular row member ▸ inside
    have guessed := Cell.guess_to_text row[j] (plain row member row[j] (List.getElem_mem inRow))
    simp [inRow, guessed]
  · have outside : names.length ≤ j := Nat.le_of_not_lt inside
    rw [List.getElem?_eq_none (by rwa [Csv.columns_from_length]),
      List.getElem?_eq_none (by rwa [Json.tabulate_length distinct nonempty rectangular])]

theorem load_quoted_sheet {ending : List Char} (csv : Format.ofPath p = .csv) (ends : Csv.Ending ending)
    (found : fs.find p = .ok (.file (.bytes
      (encode (Csv.quotedSheet ending (names :: rows.map (List.map Cell.toText)))))))
    (named : names ≠ []) (distinct : names.Nodup) (nonempty : rows ≠ [])
    (rectangular : ∀ row ∈ rows, row.length = names.length) (plain : ∀ row ∈ rows, ∀ c ∈ row, c.Plain) :
    fs.load p = Load.tableOf (Json.tabulate (Json.recordsOf names rows)) := by
  have width : ∀ row ∈ rows.map (List.map Cell.toText), row.length = names.length := by
    intro row member
    obtain ⟨cells, inRows, rfl⟩ := List.mem_map.mp member
    rw [List.length_map]
    exact rectangular cells inRows
  have filled : ∀ row ∈ names :: rows.map (List.map Cell.toText), row ≠ [] := by
    intro row member
    rcases List.mem_cons.mp member with header | below
    · rwa [header]
    · exact List.ne_nil_of_length_pos (width row below ▸ List.length_pos_iff.mpr named)
  have start : (Csv.quotedSheet ending (names :: rows.map (List.map Cell.toText))).head? ≠ some '\uFEFF' := by
    obtain ⟨s, row, rfl⟩ := List.exists_cons_of_ne_nil named
    rw [Csv.quotedSheet, List.flatMap_cons, List.append_assoc, List.head?_append, Csv.quoted_record_head,
      Option.some_or]
    decide
  rw [← columns_from_rows distinct nonempty rectangular plain]
  have unmarked : ∀ text, Utf8.encode text = Csv.fileBytes false text := fun _ => rfl
  rw [unmarked] at found
  exact Csv.load_written csv found (Csv.quoted_sheet_text ends _ filled) (fun _ => start) width

theorem load_compact_records (json : Format.ofPath q = .json)
    (found : fs.find q = .ok (.file (.bytes (encode (Json.listOf (Json.recordsOf names rows)).toText))))
    (distinct : names.Nodup) (rectangular : ∀ row ∈ rows, row.length = names.length)
    (plain : ∀ row ∈ rows, ∀ c ∈ row, c.Plain) :
    fs.load q = Load.tableOf (Json.tabulate (Json.recordsOf names rows)) := by
  have written := Json.written_list_of 125 distinct rectangular plain
  rw [Json.load_json json found (Utf8.decode_encode _) (Json.read_text _ written), Json.listOf,
    Json.columns_of_records _ (Json.records_of_keys distinct rectangular)]

/-- The same rows in a sheet of quoted fields and in a compact list of records load as one table. -/
theorem loaders_agree {ending : List Char} (csv : Format.ofPath p = .csv) (json : Format.ofPath q = .json)
    (ends : Csv.Ending ending)
    (sheet : fs.find p = .ok (.file (.bytes
      (encode (Csv.quotedSheet ending (names :: rows.map (List.map Cell.toText)))))))
    (records : fs.find q = .ok (.file (.bytes (encode (Json.listOf (Json.recordsOf names rows)).toText))))
    (named : names ≠ []) (distinct : names.Nodup) (nonempty : rows ≠ [])
    (rectangular : ∀ row ∈ rows, row.length = names.length) (plain : ∀ row ∈ rows, ∀ c ∈ row, c.Plain) :
    ∃ t b, fs.load p = .ok t ∧ fs.load q = .ok t ∧ t.columnNames = names ∧ t.numRows = rows.length ∧
      t.batches = [b] ∧ b.schema = t.schema ∧ b.columns.length = names.length ∧
      ∀ j < names.length, b.columns[j]? = some (.infer (rows.map fun row => row.getD j .null)) := by
  have fromSheet := load_quoted_sheet csv ends sheet named distinct nonempty rectangular plain
  have fromRecords := load_compact_records json records distinct rectangular plain
  have columns := Json.tabulate_length distinct nonempty rectangular
  have filled : Json.tabulate (Json.recordsOf names rows) ≠ [] := by
    intro none
    rw [none] at columns
    exact named (List.eq_nil_of_length_eq_zero columns.symm)
  have equal := Json.tabulate_equal (Json.recordsOf names rows)
  have count : (Json.recordsOf names rows).length = rows.length := List.length_map _
  have table := table_of_cells filled (count ▸ equal)
  refine ⟨_, _, fromSheet.trans table, fromRecords.trans table, ?_, single_batch_rows _ _, rfl, rfl,
    by rw [Batch.of_cells_columns, List.length_map, columns], fun j inside => ?_⟩
  · rw [Table.columnNames, Batch.of_cells_names, Json.tabulate_names,
      Json.first_keys_of distinct nonempty rectangular]
  · rw [Batch.of_cells_columns, List.getElem?_map, Json.tabulate_at distinct nonempty rectangular j inside, Option.map_some]

theorem loaders_agree_on_mixed_rows :
    let rows : List (List Cell) := [[.null, .text "q\"\n\\"], [.integer (-5), .bool true]]
    let sheet := Csv.quotedSheet ['\r', '\n'] (["a", "b"] :: rows.map (List.map Cell.toText))
    let list := (Json.listOf (Json.recordsOf ["a", "b"] rows)).toText
    let fs : FileSystem := ⟨[([encodeString "t.csv"], .file (.bytes (encode sheet))),
      ([encodeString "t.json"], .file (.bytes (encode list)))], []⟩
    ∃ t, fs.load (encodeString "t.csv") = .ok t ∧ fs.load (encodeString "t.json") = .ok t ∧ t.numRows = 2 := by
  intro rows sheet list fs
  have plain : ∀ row ∈ rows, ∀ c ∈ row, c.Plain := by
    simp only [rows, List.forall_mem_cons, List.not_mem_nil, false_implies, implies_true, and_true]
    exact ⟨⟨.null, .text _ (by decide +kernel)⟩, .integer (-5), .bool true⟩
  have sheetFound : fs.find (encodeString "t.csv") = .ok (.file (.bytes (encode sheet))) := rfl
  have listFound : fs.find (encodeString "t.json") = .ok (.file (.bytes (encode list))) := rfl
  obtain ⟨t, _, fromSheet, fromList, _, count, _⟩ :=
    loaders_agree (by decide +kernel) (by decide +kernel) .both sheetFound listFound (List.cons_ne_nil _ _)
      (by decide) (List.cons_ne_nil _ _) (by decide) plain
  exact ⟨t, fromSheet, fromList, count⟩

end Agreement

end TablePeek
