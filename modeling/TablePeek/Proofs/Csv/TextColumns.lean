import Mathlib.Data.List.Forall2
import TablePeek.Proofs.Csv.Table
import TablePeek.Proofs.Files
import TablePeek.Proofs.Number.Plain

set_option autoImplicit false

namespace TablePeek

open Utf8 (encodeString)

namespace Cell

-- A field that its cell is written back as: any text that is no numeral, and a numeral in the spelling
-- that the number itself has, for a whole number without plus or zeros in front, otherwise in full.
def KeepsSpelling (s : String) : Prop :=
  match guess s with
  | .integer _ => Digits.Whole s.toList
  | .float x => Positional s.toList ∧ s.toList = Layout.plain.write x
  | _ => True

theorem as_text_none (s : String) : (guess s).asText? = none ↔ s = "" := by
  rw [guess]
  repeat' split
  all_goals simp_all [asText?]

theorem as_text_some (c : Cell) (text : String) (shown : c.asText? = some text) : text = c.toText := by
  cases c <;> simp_all [asText?]

theorem to_text_guess (s : String) : (guess s).toText = s ↔ KeepsSpelling s := by
  rw [KeepsSpelling, guess]
  by_cases null : s = ""
  · simp [null, toText]
  by_cases yes : s = "true"
  · simp [yes, toText, boolText]
  by_cases no : s = "false"
  · simp [no, toText, boolText]
  rw [if_neg null, if_neg yes, if_neg no]
  cases whole : readInt64? s.toList with
  | some i =>
    simp only [toText]
    rw [← written_back_iff whole, ← String.toList_inj, String.toList_ofList]
  | none =>
    cases fraction : Binary64.read? s.toList with
    | some x =>
      simp only [toText]
      rw [← String.toList_inj, String.toList_ofList]
      constructor
      · intro same
        exact ⟨same ▸ Layout.plain_positional x, same.symm⟩
      · rintro ⟨_, same⟩
        exact same.symm
    | none => simp [toText]

end Cell

theorem infer_text (cells : List Cell) (entries : List (Option String))
    (text : Column.infer cells = ⟨.text, entries⟩) : entries = cells.map Cell.asText? := by
  rw [Column.infer] at text
  split at text <;> simp_all

namespace Csv

def Holds (r : Record) (row : List String) : Prop :=
  r.fields.map Utf8.decode? = row.map fun s => some s.toList

def FieldAt (records : List Record) (i j : Nat) (s : String) : Prop :=
  ∃ r field, records[i]? = some r ∧ r.fields[j]? = some field ∧ Utf8.decode? field = some s.toList

theorem texts_hold (number : Nat) (fields : List Utf8.Bytes) (row : List String)
    (read : texts number fields = .ok row) : fields.map Utf8.decode? = row.map fun s => some s.toList := by
  induction fields generalizing number row with
  | nil =>
    cases read
    rfl
  | cons field rest ih =>
    rw [texts] at read
    cases decoded : Utf8.decode? field with
    | none => simp [decoded] at read
    | some cs =>
      rw [decoded] at read
      obtain ⟨others, readRest, rfl⟩ := map_ok read
      rw [List.map_cons, List.map_cons, ih (number + 1) others readRest, decoded, String.toList_ofList]

theorem check_record_holds {width : Nat} {r : Record} {row : List String}
    (checked : checkRecord width r = .ok row) : Holds r row ∧ row.length = width := by
  rw [checkRecord] at checked
  split at checked
  · rename_i equal
    have holds := texts_hold 0 r.fields row checked
    have length := congrArg List.length holds
    rw [List.length_map, List.length_map, equal] at length
    exact ⟨holds, length.symm⟩
  · cases checked

theorem check_all_holds (width number : Nat) (records : List Record) (rows : List (List String))
    (checked : checkAll width number records = .ok rows) :
    List.Forall₂ (fun r row => Holds r row ∧ row.length = width) records rows := by
  induction records generalizing number rows with
  | nil =>
    cases checked
    exact .nil
  | cons r rest ih =>
    rw [checkAll] at checked
    split at checked
    · cases checked
    · rename_i row first
      obtain ⟨others, checkedRest, rfl⟩ := map_ok checked
      exact .cons (check_record_holds first) (ih (number + 1) others checkedRest)

theorem sheet_holds {r : Record} {rest : List Record} {s : Sheet} (read : sheet (r :: rest) = .ok s) :
    List.Forall₂ (fun r row => Holds r row ∧ row.length = s.header.length) rest s.rows := by
  rw [sheet] at read
  split at read
  · cases read
  · rename_i header first
    obtain ⟨rows, checkedRest, rfl⟩ := map_ok read
    have width := (check_record_holds first).2
    exact width ▸ check_all_holds _ 1 rest rows checkedRest

theorem field_at (r : Record) (row : List String) (j : Nat) (s : String) (holds : Holds r row)
    (there : row[j]? = some s) : ∃ field, r.fields[j]? = some field ∧ Utf8.decode? field = some s.toList := by
  have same := congrArg (fun texts => texts[j]?) holds
  simp only [List.getElem?_map, there, Option.map_some, Option.map_eq_some_iff] at same
  exact same

section Loading

variable {fs : FileSystem} {p : Path} {t : Table}

theorem csv_loaded (csv : Format.ofPath p = .csv) (loaded : fs.load p = .ok t) :
    ∃ bs s, fs.find p = .ok (.file (.bytes bs)) ∧ sheet (split bs) = .ok s ∧ Load.tableOf s.columns = .ok t := by
  unfold FileSystem.load Load.opened at loaded
  split at loaded
  · cases loaded
  · rename_i n found
    rw [csv, Load.node] at loaded
    cases n with
    | directory => cases loaded
    | file content =>
      cases content with
      | stored s => cases loaded
      | bytes bs =>
        simp only [Load.csv, Load.csvBytes] at loaded
        split at loaded
        · cases loaded
        · rename_i columns read
          obtain ⟨s, sheetRead, rfl⟩ := map_ok read
          exact ⟨bs, s, found, sheetRead, loaded⟩

theorem loaded_column {s : Sheet} (made : Load.tableOf s.columns = .ok t) (b : Batch) (inTable : b ∈ t.batches)
    (j : Nat) (c : Column) (there : b.columns[j]? = some c) :
    j < s.header.length ∧ c = .infer (s.rows.map fun row => .guess (row.getD j "")) := by
  have length := columns_from_length s.rows 0 s.header
  by_cases none : s.columns = []
  · rw [none, table_of_none, Except.ok.injEq] at made
    rw [← made] at inTable
    cases inTable
  · have equal : ∀ c ∈ s.columns, c.2.length = s.rows.length := columns_from_equal s.rows 0 s.header
    rw [table_of_cells none equal, Except.ok.injEq] at made
    rw [← made, List.mem_singleton] at inTable
    rw [inTable, Batch.of_cells_columns, List.getElem?_map, Option.map_eq_some_iff] at there
    obtain ⟨cells, place, rfl⟩ := there
    have inside : j < s.header.length := by
      rw [← length]
      exact (List.getElem?_eq_some_iff.mp place).1
    rw [Sheet.columns, columns_from_at s.rows 0 j s.header inside, Nat.zero_add, Option.some.injEq] at place
    exact ⟨inside, by rw [← place]⟩

/-- An entry of a text column is null exactly for an empty field, and otherwise the text of the cell
that its own field is guessed to be, whatever the rest of the column holds. That text is the field
itself exactly if the field is no numeral or spells its number as the number is written. -/
theorem text_column_entries (csv : Format.ofPath p = .csv) (loaded : fs.load p = .ok t) :
    ∃ bs, fs.find p = .ok (.file (.bytes bs)) ∧
      ∀ b ∈ t.batches, ∀ (j : Nat) (entries : List (Option String)), b.columns[j]? = some ⟨.text, entries⟩ →
        entries.length + 1 = (split bs).length ∧
        ∀ i e, entries[i]? = some e → ∃ s, FieldAt (split bs) (i + 1) j s ∧ (e = none ↔ s = "") ∧
          ∀ text, e = some text → text = (Cell.guess s).toText ∧ (text = s ↔ Cell.KeepsSpelling s) := by
  obtain ⟨bs, sh, found, read, made⟩ := csv_loaded csv loaded
  refine ⟨bs, found, fun b inTable j entries there => ?_⟩
  obtain ⟨inside, column⟩ := loaded_column made b inTable j _ there
  have cells := infer_text _ _ column.symm
  generalize split bs = records at read ⊢
  cases records with
  | nil =>
    cases read
    cases inside
  | cons first rest =>
    have rows := sheet_holds read
    have height := rows.length_eq
    constructor
    · rw [cells, List.length_map, List.length_map, List.length_cons, height]
    intro i e entry
    rw [cells, List.map_map, List.getElem?_map, Option.map_eq_some_iff] at entry
    obtain ⟨row, rowThere, rfl⟩ := entry
    obtain ⟨inRows, rowIs⟩ := List.getElem?_eq_some_iff.mp rowThere
    have inRest : i < rest.length := height ▸ inRows
    obtain ⟨holds, width⟩ := rows.get inRest inRows
    simp only [List.get_eq_getElem, rowIs] at holds width
    have inRow : j < row.length := width ▸ inside
    have place : row.getD j "" = row[j] := by simp [inRow]
    obtain ⟨field, fieldThere, decoded⟩ := field_at rest[i] row j row[j] holds (List.getElem?_eq_getElem inRow)
    simp only [Function.comp_apply, place]
    refine ⟨row[j], ⟨rest[i], field, List.getElem?_eq_getElem inRest, fieldThere, decoded⟩,
      Cell.as_text_none row[j], fun text shown => ?_⟩
    have written := Cell.as_text_some _ text shown
    exact ⟨written, written ▸ Cell.to_text_guess row[j]⟩

theorem numerals_among_texts :
    let bytes := encodeString "a\n007\n42\nx\n\"\"\n"
    let schema : Schema := [⟨"a", .text, true⟩]
    let t : Table := ⟨schema, [⟨schema, 4, [⟨.text, [some "7", some "42", some "x", none]⟩], by decide⟩]⟩
    let fs : FileSystem := ⟨[([encodeString "t.csv"], .file (.bytes bytes))], []⟩
    Format.ofPath (encodeString "t.csv") = .csv ∧ fs.load (encodeString "t.csv") = .ok t ∧
      (∃ s, FieldAt (split bytes) 2 0 s ∧ "42" = (Cell.guess s).toText ∧ ("42" = s ↔ Cell.KeepsSpelling s)) ∧
      ∃ s, FieldAt (split bytes) 4 0 s ∧ s = "" := by
  intro bytes schema t fs
  have csv : Format.ofPath (encodeString "t.csv") = .csv := by decide +kernel
  have loaded : fs.load (encodeString "t.csv") = .ok t := by decide +kernel
  obtain ⟨_, found, columns⟩ := text_column_entries csv loaded
  obtain rfl := Content.bytes.inj (Node.file.inj (Except.ok.inj found))
  have entries := (columns _ (List.mem_singleton_self _) 0 [some "7", some "42", some "x", none] rfl).2
  obtain ⟨s, second, _, written⟩ := entries 1 _ rfl
  obtain ⟨e, fourth, empty, _⟩ := entries 3 _ rfl
  exact ⟨csv, loaded, ⟨s, second, written "42" rfl⟩, e, fourth, empty.mp rfl⟩

theorem zeros_are_dropped :
    let bytes := encodeString "a\n007\nx\n"
    let schema : Schema := [⟨"a", .text, false⟩]
    let t : Table := ⟨schema, [⟨schema, 2, [⟨.text, [some "7", some "x"]⟩], by decide⟩]⟩
    let fs : FileSystem := ⟨[([encodeString "t.csv"], .file (.bytes bytes))], []⟩
    fs.load (encodeString "t.csv") = .ok t ∧
      (split bytes).map Record.fields = [[encodeString "a"], [encodeString "007"], [encodeString "x"]] := by
  decide +kernel

end Loading

end Csv

end TablePeek
