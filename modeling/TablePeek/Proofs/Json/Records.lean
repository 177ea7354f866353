import TablePeek.Proofs.Columns
import TablePeek.Proofs.Json.Keys
import TablePeek.Proofs.Json.Text
import TablePeek.Proofs.Text.Utf8

set_option autoImplicit false

namespace TablePeek.Json

open Utf8 (encode encodeString)

abbrev Record := List (String × Value)

def keys (r : Record) : List String := r.map Prod.fst

def cellOf (r : Record) (key : String) : Cell := ((r.lookup key).map Cell.ofJson).getD .null

theorem written_records (depth : Nat) (records : List Record) (unique : ∀ r ∈ records, (keys r).Nodup)
    (each : ∀ r ∈ records, ∀ m ∈ r, Written depth m.2) : Written (depth + 2) (.array (records.map Value.object)) := by
  refine .array (depth + 1) _ fun v item => ?_
  obtain ⟨r, member, rfl⟩ := List.mem_map.mp item
  exact .object depth r (unique r member) (each r member)

def firstKeys (records : List Record) : List String := (records.flatMap keys).eraseDups

def tabulate (records : List Record) : List (String × List Cell) :=
  (firstKeys records).map fun k => (k, records.map fun r => cellOf r k)

theorem tabulate_names (records : List Record) : (tabulate records).map Prod.fst = firstKeys records := by
  simp [tabulate, Function.comp_def]

theorem tabulate_equal (records : List Record) : ∀ c ∈ tabulate records, c.2.length = records.length := by
  intro c member
  obtain ⟨k, _, rfl⟩ := List.mem_map.mp member
  exact List.length_map _

theorem erase_dups_distinct {α : Type} [DecidableEq α] (xs : List α) : xs.eraseDups.Nodup := by
  cases xs with
  | nil => simp
  | cons x rest =>
    rw [List.eraseDups_cons, List.nodup_cons]
    exact ⟨by simp, erase_dups_distinct (rest.filter fun y => !y == x)⟩
termination_by xs.length
decreasing_by exact Nat.lt_succ_of_le (List.length_filter_le _ rest)

theorem erase_dups_known {α : Type} [DecidableEq α] (xs : List α) (x : α) (known : x ∈ xs) :
    (xs ++ [x]).eraseDups = xs.eraseDups := by
  simp [List.eraseDups_append, List.removeAll, known]

theorem erase_dups_new {α : Type} [DecidableEq α] (xs : List α) (x : α) (new : x ∉ xs) :
    (xs ++ [x]).eraseDups = xs.eraseDups ++ [x] := by
  simp [List.eraseDups_append, List.removeAll, new, List.eraseDups_cons]

theorem erase_dups_nodup {α : Type} [DecidableEq α] (xs : List α) (distinct : xs.Nodup) : xs.eraseDups = xs := by
  induction xs with
  | nil => rfl
  | cons x xs ih =>
    obtain ⟨new, rest⟩ := List.nodup_cons.mp distinct
    have others : xs.filter (fun y => !y == x) = xs :=
      List.filter_eq_self.mpr fun y member => by
        simpa using fun same : y = x => new (same ▸ member)
    rw [List.eraseDups_cons, others, ih rest]

theorem lookup_absent (r : Record) (k : String) (absent : k ∉ keys r) : r.lookup k = none := by
  rw [List.lookup_eq_none_iff]
  intro m member
  exact bne_iff_ne.mpr fun same => absent (List.mem_map.mpr ⟨m, member, same.symm⟩)

theorem lookup_present (r : Record) (k : String) (present : k ∈ keys r) : (r.lookup k).isSome := by
  rw [List.lookup_isSome_iff]
  obtain ⟨m, member, same⟩ := List.mem_map.mp present
  exact ⟨m, member, by simp [same]⟩

theorem lookup_appended (front : Record) (m : String × Value) (k : String) :
    (front ++ [m]).lookup k = (front.lookup k).or (if k = m.1 then some m.2 else none) := by
  rw [List.lookup_append]
  obtain ⟨key, v⟩ := m
  by_cases same : k = key
  · simp [same]
  · simp [List.lookup_cons, beq_eq_false_iff_ne.mpr same, same]

def Growing.view (g : Growing) : String × List Cell := (g.name, g.cells.toList)

-- While a record is added, a column is one cell ahead of the records before it as soon as the
-- record's member for it is in; the columns of keys still to come are yet as long as those records.
def partly (records : List Record) (front : Record) : List (String × List Cell) :=
  (records.flatMap keys ++ keys front).eraseDups.map fun k =>
    (k, (records.map fun r => cellOf r k) ++ ((front.lookup k).map Cell.ofJson).toList)

theorem push_new (rows : Nat) (m : String × Value) (columns : List Growing)
    (absent : m.1 ∉ columns.map Growing.name) :
    (Growing.push rows m columns).map Growing.view =
      columns.map Growing.view ++ [(m.1, List.replicate rows .null ++ [Cell.ofJson m.2])] := by
  induction columns with
  | nil => simp [Growing.push, Growing.view]
  | cons g rest ih =>
    have different : g.name ≠ m.1 := fun same => absent (by simp [same])
    have later : m.1 ∉ rest.map Growing.name := fun member => absent (List.mem_cons_of_mem _ member)
    rw [Growing.push, if_neg different, List.map_cons, ih later, List.map_cons, List.cons_append]

theorem push_known (rows : Nat) (m : String × Value) (columns : List Growing)
    (distinct : (columns.map Growing.name).Nodup) (known : m.1 ∈ columns.map Growing.name) :
    (Growing.push rows m columns).map Growing.view =
      (columns.map Growing.view).map fun c =>
        if c.1 = m.1 then (c.1, c.2 ++ [Cell.ofJson m.2]) else c := by
  induction columns with
  | nil => cases known
  | cons g rest ih =>
    obtain ⟨notLater, restDistinct⟩ := List.nodup_cons.mp distinct
    by_cases same : g.name = m.1
    · have others : (rest.map Growing.view).map
          (fun c => if c.1 = m.1 then (c.1, c.2 ++ [Cell.ofJson m.2]) else c) = rest.map Growing.view := by
        rw [List.map_map]
        apply List.map_congr_left
        intro h member
        have different : h.name ≠ m.1 := fun again =>
          notLater (by rw [same, ← again]; exact List.mem_map.mpr ⟨h, member, rfl⟩)
        simp [Growing.view, different]
      rw [Growing.push, if_pos same, List.map_cons, List.map_cons, List.map_cons, others]
      simp [Growing.view, same]
    · have later : m.1 ∈ rest.map Growing.name := by
        rcases List.mem_cons.mp known with atHead | inRest
        · exact absurd atHead.symm same
        · exact inRest
      rw [Growing.push, if_neg same, List.map_cons, List.map_cons, List.map_cons, ih restDistinct later]
      simp [Growing.view, same]

theorem view_names (columns : List Growing) :
    columns.map Growing.name = (columns.map Growing.view).map Prod.fst := by
  simp [Growing.view, Function.comp_def]

theorem push_partly (columns : List Growing) (records : List Record) (front : Record)
    (m : String × Value) (shown : columns.map Growing.view = partly records front)
    (fresh : m.1 ∉ keys front) :
    (Growing.push records.length m columns).map Growing.view = partly records (front ++ [m]) := by
  have names : columns.map Growing.name = (records.flatMap keys ++ keys front).eraseDups := by
    rw [view_names, shown, partly, List.map_map]
    simp [Function.comp_def]
  have extended : records.flatMap keys ++ keys (front ++ [m]) =
      (records.flatMap keys ++ keys front) ++ [m.1] := by simp [keys]
  by_cases known : m.1 ∈ records.flatMap keys ++ keys front
  · rw [push_known _ _ _ (names ▸ erase_dups_distinct _) (by rw [names]; simpa using known), shown,
      partly, partly, extended, erase_dups_known _ _ known, List.map_map]
    apply List.map_congr_left
    intro k _
    by_cases same : k = m.1
    · subst same
      simp [lookup_appended, lookup_absent front _ fresh]
    · simp [lookup_appended, same]
  · have missing : ∀ r ∈ records, cellOf r m.1 = .null := by
      intro r member
      have absent : m.1 ∉ keys r := fun present =>
        known (List.mem_append_left _ (List.mem_flatMap.mpr ⟨r, member, present⟩))
      simp [cellOf, lookup_absent r _ absent]
    have nulls : (records.map fun r => cellOf r m.1) = List.replicate records.length .null :=
      List.eq_replicate_iff.mpr ⟨List.length_map _, fun c member => by
        obtain ⟨r, inRecords, same⟩ := List.mem_map.mp member
        rw [← same, missing r inRecords]⟩
    rw [push_new _ _ _ (by rw [names]; simpa using known), shown, partly, partly, extended,
      erase_dups_new _ _ known, List.map_append]
    congr 1
    · apply List.map_congr_left
      intro k member
      have different : k ≠ m.1 := fun same => known (same ▸ List.mem_eraseDups.mp member)
      simp [lookup_appended, different]
    · simp [nulls, lookup_appended, lookup_absent front _ fresh]

theorem push_all_partly (columns : List Growing) (records : List Record) (front back : Record)
    (shown : columns.map Growing.view = partly records front) (distinct : (keys (front ++ back)).Nodup) :
    (back.foldl (fun columns m => Growing.push records.length m columns) columns).map Growing.view =
      partly records (front ++ back) := by
  induction back generalizing columns front with
  | nil => simpa using shown
  | cons m back ih =>
    have fresh : m.1 ∉ keys front := by
      simp only [keys, List.map_append, List.map_cons, List.nodup_append] at distinct
      exact fun member => distinct.2.2 m.1 member m.1 (by simp) rfl
    have assoc : front ++ m :: back = front ++ [m] ++ back := by simp
    rw [List.foldl_cons, assoc]
    exact ih _ _ (push_partly columns records front m shown fresh) (assoc ▸ distinct)

theorem top_up_view (rows : Nat) (g : Growing) :
    (Growing.topUp rows g).view =
      if g.view.2.length ≤ rows then (g.view.1, g.view.2 ++ [.null]) else g.view := by
  unfold Growing.topUp Growing.view
  simp only [Array.length_toList]
  split <;> simp

theorem add_record_tabulated (columns : List Growing) (records : List Record) (record : Record)
    (shown : columns.map Growing.view = tabulate records) (distinct : (keys record).Nodup) :
    (Growing.addRecord records.length columns record).map Growing.view = tabulate (records ++ [record]) := by
  have before : columns.map Growing.view = partly records [] := by
    simpa [partly, tabulate, firstKeys, keys] using shown
  have pushed := push_all_partly columns records [] record before (by simpa using distinct)
  rw [List.nil_append] at pushed
  have topped : (Growing.addRecord records.length columns record).map Growing.view =
      (partly records record).map fun c =>
        if c.2.length ≤ records.length then (c.1, c.2 ++ [.null]) else c := by
    rw [Growing.addRecord, List.map_map, ← pushed, List.map_map]
    exact List.map_congr_left fun g _ => top_up_view records.length g
  rw [topped, partly, tabulate, firstKeys, List.flatMap_append, List.map_map]
  simp only [List.flatMap_cons, List.flatMap_nil, List.append_nil]
  apply List.map_congr_left
  intro k _
  by_cases present : k ∈ keys record
  · obtain ⟨v, found⟩ := Option.isSome_iff_exists.mp (lookup_present record k present)
    simp [cellOf, found]
  · simp [cellOf, lookup_absent record k present]

theorem add_all_records (columns : List Growing) (done records : List Record)
    (shown : columns.map Growing.view = tabulate done) (distinct : ∀ r ∈ records, (keys r).Nodup) :
    ∃ grown, Growing.addAll done.length columns (records.map Value.object) = .ok grown ∧
      grown.map Growing.view = tabulate (done ++ records) := by
  induction records generalizing columns done with
  | nil => exact ⟨columns, rfl, by simpa using shown⟩
  | cons r records ih =>
    have added := add_record_tabulated columns done r shown (distinct r List.mem_cons_self)
    obtain ⟨grown, completed, final⟩ :=
      ih _ (done ++ [r]) added (fun q member => distinct q (List.mem_cons_of_mem _ member))
    refine ⟨grown, ?_, by simpa using final⟩
    rw [List.map_cons, Growing.addAll]
    simpa using completed

theorem add_all_stops (columns : List Growing) (rows : Nat) (records : List Record) (other : Value)
    (rest : List Value) (notRecord : ∀ r, other ≠ .object r) :
    Growing.addAll rows columns (records.map Value.object ++ other :: rest) =
      .error (.notRecord (rows + records.length)) := by
  induction records generalizing columns rows with
  | nil =>
    cases other with
    | object members => exact absurd rfl (notRecord members)
    | _ => rfl
  | cons r records ih =>
    rw [List.map_cons, List.cons_append, Growing.addAll, ih, List.length_cons]
    congr 2
    omega

theorem columns_of_records (records : List Record) (distinct : ∀ r ∈ records, (keys r).Nodup) :
    columns (.array (records.map Value.object)) = .ok (tabulate records) := by
  obtain ⟨grown, completed, final⟩ := add_all_records [] [] records rfl distinct
  rw [List.length_nil] at completed
  rw [columns, completed]
  exact congrArg Except.ok final

theorem records_or_other (items : List Value) :
    (∃ records : List Record, items = records.map Value.object) ∨
      ∃ (records : List Record) (other : Value) (rest : List Value),
        items = records.map Value.object ++ other :: rest ∧ ∀ r, other ≠ .object r := by
  induction items with
  | nil => exact .inl ⟨[], rfl⟩
  | cons v items ih =>
    by_cases record : ∃ r, v = .object r
    · obtain ⟨r, rfl⟩ := record
      rcases ih with ⟨records, rfl⟩ | ⟨records, other, rest, rfl, notRecord⟩
      · exact .inl ⟨r :: records, rfl⟩
      · exact .inr ⟨r :: records, other, rest, rfl, notRecord⟩
    · exact .inr ⟨[], v, items, rfl, fun r same => record ⟨r, same⟩⟩

def FirstOther (items : List Value) (i : Nat) : Prop :=
  (∃ v, items[i]? = some v ∧ ∀ r, v ≠ .object r) ∧ ∀ j < i, ∃ r, items[j]? = some (.object r)

theorem first_other_behind (records : List Record) (other : Value) (rest : List Value)
    (notRecord : ∀ r, other ≠ .object r) :
    FirstOther (records.map Value.object ++ other :: rest) records.length := by
  refine ⟨⟨other, by simp, notRecord⟩, fun j inside => ⟨records[j], ?_⟩⟩
  rw [List.getElem?_append_left (by simpa using inside)]
  simp [inside]

theorem first_keys_mem (records : List Record) (k : String) :
    k ∈ firstKeys records ↔ ∃ r ∈ records, k ∈ keys r := by
  simp [firstKeys]

theorem cell_of_member (r : Record) (k : String) (v : Value) (distinct : (keys r).Nodup)
    (member : (k, v) ∈ r) : cellOf r k = Cell.ofJson v := by
  induction r with
  | nil => cases member
  | cons m rest ih =>
    obtain ⟨notLater, restDistinct⟩ := List.nodup_cons.mp distinct
    rcases List.mem_cons.mp member with atHead | inRest
    · simp [cellOf, ← atHead]
    · obtain ⟨key, w⟩ := m
      have different : (k == key) = false := beq_eq_false_iff_ne.mpr fun same =>
        notLater (same ▸ List.mem_map.mpr ⟨(k, v), inRest, rfl⟩)
      rw [← ih restDistinct inRest]
      simp [cellOf, List.lookup_cons, different]

structure Tabulates (records : List Record) (t : Table) : Prop where
  names : t.columnNames = firstKeys records
  distinct : t.columnNames.Nodup
  exactly : ∀ k, k ∈ t.columnNames ↔ ∃ r ∈ records, k ∈ keys r
  present : ∀ r ∈ records, ∀ k v, (k, v) ∈ r → cellOf r k = Cell.ofJson v
  absent : ∀ r ∈ records, ∀ k, k ∉ keys r → cellOf r k = .null
  fields : t.schema = (firstKeys records).map fun k =>
    .ofColumn k (.infer (records.map fun r => cellOf r k))
  filled : (∃ r ∈ records, r ≠ []) → t.numRows = records.length ∧ ∃ b, t.batches = [b] ∧
    b.schema = t.schema ∧ b.rows = records.length ∧
    b.columns = (firstKeys records).map fun k => .infer (records.map fun r => cellOf r k)
  lengths : ∀ b ∈ t.batches, ∀ c ∈ b.columns, c.length = records.length
  bare : (∀ r ∈ records, r = []) → t.schema = [] ∧ t.batches = [] ∧ t.numRows = 0

theorem no_first_keys (records : List Record) : firstKeys records = [] ↔ ∀ r ∈ records, r = [] := by
  constructor
  · intro none r member
    cases r with
    | nil => rfl
    | cons m rest =>
      have listed : m.1 ∈ firstKeys records :=
        (first_keys_mem records m.1).mpr ⟨m :: rest, member, by simp [keys]⟩
      rw [none] at listed
      cases listed
  · intro bare
    apply List.eq_nil_iff_forall_not_mem.mpr
    intro k listed
    obtain ⟨r, member, inRecord⟩ := (first_keys_mem records k).mp listed
    rw [bare r member] at inRecord
    cases inRecord

theorem table_of_records (records : List Record) (unique : ∀ r ∈ records, (keys r).Nodup) :
    ∃ t, Load.tableOf (tabulate records) = .ok t ∧ Tabulates records t := by
  have present : ∀ r ∈ records, ∀ k v, (k, v) ∈ r → cellOf r k = Cell.ofJson v :=
    fun r member k v => cell_of_member r k v (unique r member)
  have absent : ∀ r ∈ records, ∀ k, k ∉ keys r → cellOf r k = .null :=
    fun r _ k missing => by simp [cellOf, lookup_absent r k missing]
  by_cases none : firstKeys records = []
  · have bare := (no_first_keys records).mp none
    refine ⟨Table.empty, by simp [tabulate, none, table_of_none], ?_⟩
    exact {
      names := none.symm
      distinct := by simp [Table.columnNames, Table.empty]
      exactly := fun k => by rw [← first_keys_mem, none]; simp [Table.columnNames, Table.empty]
      present, absent
      fields := by simp [none, Table.empty]
      filled := fun ⟨r, member, notBare⟩ => absurd (bare r member) notBare
      lengths := by simp [Table.empty]
      bare := fun _ => ⟨rfl, rfl, rfl⟩ }
  · have equal := tabulate_equal records
    have names : (Batch.ofCells equal).schema.map Field.name =
        firstKeys records := by
      rw [Batch.of_cells_names, tabulate_names]
    refine ⟨_, table_of_cells (by simpa [tabulate] using none) equal, ?_⟩
    exact {
      names
      distinct := by rw [Table.columnNames, names]; exact erase_dups_distinct _
      exactly := fun k => by rw [Table.columnNames, names]; exact first_keys_mem records k
      present, absent
      fields := by simp [Batch.ofCells, tabulate, Function.comp_def]
      filled := fun _ => ⟨single_batch_rows _ _, _, rfl, rfl, rfl,
        by simp [Batch.ofCells, tabulate, Function.comp_def]⟩
      lengths := by
        intro b only c member
        obtain rfl := List.mem_singleton.mp only
        obtain ⟨source, inTable, rfl⟩ := List.mem_map.mp member
        rw [infer_length, equal source inTable]
      bare := fun bare => absurd ((no_first_keys records).mpr bare) none }

theorem load_json {fs : FileSystem} {p : Path} {bs : Utf8.Bytes} {text : List Char} {v : Value}
    (json : Format.ofPath p = .json) (found : fs.find p = .ok (.file (.bytes bs)))
    (decoded : Utf8.decode? bs = some text) (parsed : Json.read text = .ok v) :
    fs.load p = match columns v with
      | .error m => .error (.malformed m)
      | .ok columns => Load.tableOf columns := by
  have text : fs.load p = Load.jsonText text := by
    simp only [FileSystem.load, Load.opened, found, json, Load.node, Load.json, decoded]
  cases collected : columns v <;> simp only [text, Load.jsonText, parsed, collected]

theorem record_keys_distinct {records : List Record} (v : Value) (distinct : v.KeysDistinct)
    (root : v = .array (records.map Value.object)) : ∀ r ∈ records, (keys r).Nodup := by
  intro r member
  subst root
  cases distinct with
  | array _ each =>
    cases each (.object r) (List.mem_map.mpr ⟨r, member, rfl⟩) with
    | object _ keysDistinct _ => exact keysDistinct

/-- A parsed text loads exactly when it is a list of objects, and then as the table of these records;
otherwise the error says whether the root is no list or which item is the first that is no object. -/
theorem json_records_load {fs : FileSystem} {p : Path} {bs : Utf8.Bytes} {text : List Char} {v : Value}
    (json : Format.ofPath p = .json) (found : fs.find p = .ok (.file (.bytes bs)))
    (decoded : Utf8.decode? bs = some text) (parsed : Json.read text = .ok v) :
    ((∃ t, fs.load p = .ok t) ↔ ∃ records : List Record, v = .array (records.map Value.object)) ∧
    (∀ records : List Record, v = .array (records.map Value.object) →
      (∀ r ∈ records, (keys r).Nodup) ∧ ∃ t, fs.load p = .ok t ∧ Tabulates records t) ∧
    (∀ items, v = .array items → (¬ ∃ records : List Record, items = records.map Value.object) →
      ∃ i, FirstOther items i ∧ fs.load p = .error (.malformed (.notRecord i))) ∧
    ((∀ items, v ≠ .array items) → fs.load p = .error (.malformed .notList)) := by
  have loaded := load_json json found decoded parsed
  have success : ∀ records : List Record, v = .array (records.map Value.object) →
      (∀ r ∈ records, (keys r).Nodup) ∧ ∃ t, fs.load p = .ok t ∧ Tabulates records t := by
    intro records root
    have unique := record_keys_distinct v (read_distinct parsed) root
    rw [root, columns_of_records records unique] at loaded
    rw [loaded]
    exact ⟨unique, table_of_records records unique⟩
  have notList : (∀ items, v ≠ .array items) → fs.load p = .error (.malformed .notList) := by
    intro other
    cases v with
    | array items => exact absurd rfl (other items)
    | _ => exact loaded
  have notRecord : ∀ items, v = .array items →
      (¬ ∃ records : List Record, items = records.map Value.object) →
        ∃ i, FirstOther items i ∧ fs.load p = .error (.malformed (.notRecord i)) := by
    intro items root mixed
    rcases records_or_other items with all | ⟨records, other, rest, rfl, noObject⟩
    · exact absurd all mixed
    · refine ⟨records.length, first_other_behind records other rest noObject, ?_⟩
      rw [root, columns, add_all_stops [] 0 records other rest noObject, Nat.zero_add] at loaded
      exact loaded
  refine ⟨⟨fun ⟨t, ok⟩ => ?_, fun ⟨records, root⟩ => ?_⟩, success, notRecord, notList⟩
  · by_cases array : ∃ items, v = .array items
    · obtain ⟨items, root⟩ := array
      by_cases all : ∃ records : List Record, items = records.map Value.object
      · obtain ⟨records, rfl⟩ := all
        exact ⟨records, root⟩
      · obtain ⟨i, _, failed⟩ := notRecord items root all
        cases failed.symm.trans ok
    · cases (notList fun items root => array ⟨items, root⟩).symm.trans ok
  · obtain ⟨_, t, ok, _⟩ := success records root
    exact ⟨t, ok⟩

theorem ragged_records_load :
    let records : List Record := [[("a", .integer 1)], [("b", .null), ("a", .string "x")]]
    let text := (Value.array (records.map Value.object)).toText
    let fs : FileSystem := ⟨[([encodeString "a.json"], .file (.bytes (encode text)))], []⟩
    ∃ t, fs.load (encodeString "a.json") = .ok t ∧ Tabulates records t := by
  intro records text fs
  have found : fs.find (encodeString "a.json") = .ok (.file (.bytes (encode text))) := rfl
  have written : Written maxDepth (.array (records.map Value.object)) := by
    refine .array 126 _ fun v member => ?_
    simp only [records, List.map_cons, List.map_nil, List.mem_cons, List.not_mem_nil, or_false] at member
    rcases member with rfl | rfl
    · refine .object 125 _ (by decide) fun m member => ?_
      rw [List.mem_singleton.mp member]
      exact .integer 125 1 (by decide) (by decide)
    · refine .object 125 _ (by decide) fun m member => ?_
      simp only [List.mem_cons, List.not_mem_nil, or_false] at member
      rcases member with rfl | rfl
      · exact .null 125
      · exact .string 125 "x"
  have contract := json_records_load (p := encodeString "a.json") (by decide +kernel) found
    (Utf8.decode_encode text) (read_text _ written)
  exact (contract.2.1 records rfl).2

end TablePeek.Json
