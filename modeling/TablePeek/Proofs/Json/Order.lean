import Mathlib.Data.List.Forall2
import TablePeek.Proofs.Inference.Stability
import TablePeek.Proofs.Json.Records
import TablePeek.Proofs.Lookup

set_option autoImplicit false

namespace TablePeek

def Batch.column? (b : Batch) (name : String) : Option Column := ((b.schema.map Field.name).zip b.columns).lookup name

def Table.named (t : Table) (name : String) : List (Option Column) := t.batches.map fun b => b.column? name

structure SameColumns (order : List Nat) (t u : Table) : Prop where
  names : u.columnNames.Perm t.columnNames
  fields : ∀ f, f ∈ u.schema ↔ f ∈ t.schema
  rows : u.numRows = t.numRows
  columns : ∀ name, u.named name = (t.named name).map (Option.map (Column.pick order))

theorem pick_has_null (order : List Nat) (c : Column) (every : order.Perm (List.range c.length)) :
    (c.pick order).hasNull = c.hasNull := by
  have same := pick_perm order c.entries every
  rw [Bool.eq_iff_iff, Column.hasNull, Column.hasNull, List.any_eq_true, List.any_eq_true]
  exact exists_congr fun e => and_congr_left fun _ => same.mem_iff

theorem field_of_pick (name : String) (order : List Nat) (c : Column) (every : order.Perm (List.range c.length)) :
    Field.ofColumn name (c.pick order) = Field.ofColumn name c := by
  rw [Field.ofColumn, Field.ofColumn, pick_has_null order c every]
  rfl

namespace Json

variable {records others : List Record} {order : List Nat} {t u : Table}

structure SameCells (order : List Nat) (records others : List Record) : Prop where
  every : order.Perm (List.range records.length)
  keys : ∀ k, (∃ r ∈ others, k ∈ keys r) ↔ ∃ r ∈ records, k ∈ Json.keys r
  cells : ∀ k, (others.map fun r => cellOf r k) = pick order (records.map fun r => cellOf r k)

theorem same_cells_infer (same : SameCells order records others) (k : String) :
    Column.infer (others.map fun r => cellOf r k) = (Column.infer (records.map fun r => cellOf r k)).pick order := by
  rw [same.cells k, infer_pick]
  rw [List.length_map]
  exact same.every

theorem same_cells_length (same : SameCells order records others) : others.length = records.length := by
  have cells := congrArg List.length (same.cells "")
  have picked := (pick_perm order (records.map fun r => cellOf r "") (by rw [List.length_map]; exact same.every)).length_eq
  rw [List.length_map] at cells picked
  exact cells.trans picked

theorem same_keys (same : SameCells order records others) (k : String) : k ∈ firstKeys others ↔ k ∈ firstKeys records := by
  rw [first_keys_mem, first_keys_mem, same.keys]

theorem same_bare (same : SameCells order records others) : (∀ r ∈ others, r = []) ↔ ∀ r ∈ records, r = [] := by
  rw [← no_first_keys, ← no_first_keys, List.eq_nil_iff_forall_not_mem, List.eq_nil_iff_forall_not_mem]
  exact forall_congr' fun k => not_congr (same_keys same k)

theorem same_fields (made : Tabulates records t) (remade : Tabulates others u)
    (same : SameCells order records others) (f : Field) : f ∈ u.schema ↔ f ∈ t.schema := by
  rw [remade.fields, made.fields, List.mem_map, List.mem_map]
  refine exists_congr fun k => and_congr (same_keys same k) ?_
  rw [same_cells_infer same k, field_of_pick]
  rw [infer_length, List.length_map]
  exact same.every

theorem tabulated_named (made : Tabulates records t) (filled : ∃ r ∈ records, r ≠ []) (name : String) :
    t.named name =
      [if name ∈ firstKeys records then some (.infer (records.map fun r => cellOf r name)) else none] := by
  obtain ⟨_, b, batches, schema, _, columns⟩ := made.filled filled
  have names : b.schema.map Field.name = firstKeys records := by rw [schema, ← made.names, Table.columnNames]
  rw [Table.named, batches, List.map_singleton, Batch.column?, names, columns,
    lookup_zipped fun k => Column.infer (records.map fun r => cellOf r k)]

theorem same_named (made : Tabulates records t) (remade : Tabulates others u)
    (same : SameCells order records others) (name : String) :
    u.named name = (t.named name).map (Option.map (Column.pick order)) := by
  by_cases bare : ∀ r ∈ records, r = []
  · rw [Table.named, Table.named, (made.bare bare).2.1, (remade.bare ((same_bare same).mpr bare)).2.1]
    rfl
  · have otherFilled := mt (same_bare same).mp bare
    push Not at bare otherFilled
    rw [tabulated_named made bare, tabulated_named remade otherFilled, same_cells_infer same name, List.map_singleton]
    by_cases listed : name ∈ firstKeys records
    · rw [if_pos listed, if_pos ((same_keys same name).mpr listed), Option.map_some]
    · rw [if_neg listed, if_neg (mt (same_keys same name).mp listed), Option.map_none]

theorem same_rows (made : Tabulates records t) (remade : Tabulates others u) (same : SameCells order records others) :
    u.numRows = t.numRows := by
  by_cases bare : ∀ r ∈ records, r = []
  · rw [(made.bare bare).2.2, (remade.bare ((same_bare same).mpr bare)).2.2]
  · have otherFilled := mt (same_bare same).mp bare
    push Not at bare otherFilled
    rw [(made.filled bare).1, (remade.filled otherFilled).1, same_cells_length same]

theorem same_columns (made : Tabulates records t) (remade : Tabulates others u)
    (same : SameCells order records others) : SameColumns order t u where
  names := by
    apply (List.perm_ext_iff_of_nodup remade.distinct made.distinct).mpr
    intro k
    rw [remade.exactly, made.exactly, same.keys]
  fields := same_fields made remade same
  rows := same_rows made remade same
  columns := same_named made remade same

structure Rearranged (order : List Nat) (records others : List Record) : Prop where
  every : order.Perm (List.range records.length)
  members : List.Forall₂ List.Perm others (pick order records)

theorem cell_of_perm {r s : Record} (members : r.Perm s) (distinct : (keys r).Nodup) (k : String) :
    cellOf r k = cellOf s k := by
  rw [cellOf, cellOf, lookup_perm members distinct]

theorem alike_exists {α : Type} {R : α → α → Prop} {P : α → Prop} {xs ys : List α} (alike : List.Forall₂ R xs ys)
    (same : ∀ x y, R x y → (P x ↔ P y)) : (∃ x ∈ xs, P x) ↔ ∃ y ∈ ys, P y := by
  induction alike with
  | nil => rfl
  | cons first _ ih => rw [List.exists_mem_cons_iff, List.exists_mem_cons_iff, same _ _ first, ih]

theorem alike_map {α β : Type} {R : α → α → Prop} {f : α → β} {xs ys : List α} (alike : List.Forall₂ R xs ys)
    (same : ∀ x y, x ∈ xs → R x y → f x = f y) : xs.map f = ys.map f := by
  induction alike with
  | nil => rfl
  | cons first _ ih =>
    rw [List.map_cons, List.map_cons, same _ _ List.mem_cons_self first,
      ih fun x y member => same x y (List.mem_cons_of_mem _ member)]

theorem rearranged_cells (arranged : Rearranged order records others) (unique : ∀ r ∈ others, (keys r).Nodup) :
    SameCells order records others where
  every := arranged.every
  keys k := by
    have picked := pick_perm order records arranged.every
    refine (alike_exists (P := fun r => k ∈ Json.keys r) arranged.members fun r s members => ?_).trans ?_
    · exact (members.map Prod.fst).mem_iff
    · exact exists_congr fun r => and_congr_left fun _ => picked.mem_iff
  cells k := by
    rw [pick_map]
    exact alike_map arranged.members fun r s member members => cell_of_perm members (unique r member) k

inductive NullLeftOut : List Record → List Record → Prop where
  | mk (before after : List Record) (front back : Record) (k : String) (elsewhere : ∃ r ∈ before ++ after, k ∈ keys r) :
      NullLeftOut (before ++ (front ++ (k, .null) :: back) :: after) (before ++ (front ++ back) :: after)

theorem exists_amid {α : Type} {P : α → Prop} (before after : List α) (x : α) :
    (∃ y ∈ before ++ x :: after, P y) ↔ P x ∨ ∃ y ∈ before ++ after, P y := by
  simp only [List.mem_append, List.mem_cons, or_and_right, exists_or, exists_eq_left]
  exact or_left_comm

theorem cell_without_null (front back : Record) (k name : String) (distinct : (keys (front ++ (k, .null) :: back)).Nodup) :
    cellOf (front ++ back) name = cellOf (front ++ (k, .null) :: back) name := by
  rw [cellOf, cellOf, List.lookup_append, List.lookup_append]
  by_cases same : name = k
  · subst same
    have behind : name ∉ keys back := by
      rw [keys, List.map_append, List.map_cons] at distinct
      exact (List.nodup_cons.mp (List.nodup_append.mp distinct).2.1).1
    rw [lookup_absent back name behind]
    cases front.lookup name <;> simp [Cell.ofJson]
  · rw [lookup_other same]

theorem left_out_cells (fewer : NullLeftOut records others) (unique : ∀ r ∈ records, (keys r).Nodup) :
    SameCells (List.range records.length) records others := by
  obtain ⟨before, after, front, back, k, elsewhere⟩ := fewer
  have distinct := unique _ (List.mem_append_right before List.mem_cons_self)
  refine ⟨List.Perm.refl _, fun name => ?_, fun name => ?_⟩
  · have own : name ∈ keys (front ++ (k, .null) :: back) ↔ name ∈ keys (front ++ back) ∨ name = k := by
      simp only [keys, List.map_append, List.map_cons, List.mem_append, List.mem_cons]
      tauto
    have others : name = k → ∃ r ∈ before ++ after, name ∈ keys r := fun same => same ▸ elsewhere
    rw [exists_amid, exists_amid, own]
    tauto
  · have picked := pick_all ((before ++ (front ++ (k, .null) :: back) :: after).map fun r => cellOf r name)
    rw [List.length_map] at picked
    rw [picked, List.map_append, List.map_append, List.map_cons, List.map_cons, cell_without_null front back k name distinct]

section Loading

variable {fs : FileSystem} {p q : Path} {bs cs : Utf8.Bytes} {text other : List Char}

/-- Records in another order, with their members in another order, load as the same columns with the rows in that
order; and a null member whose key another record has may be left out. -/
theorem record_order_is_free (json : Format.ofPath p = .json) (otherJson : Format.ofPath q = .json)
    (found : fs.find p = .ok (.file (.bytes bs))) (otherFound : fs.find q = .ok (.file (.bytes cs)))
    (decoded : Utf8.decode? bs = some text) (otherDecoded : Utf8.decode? cs = some other)
    (parsed : Json.read text = .ok (.array (records.map Value.object)))
    (otherParsed : Json.read other = .ok (.array (others.map Value.object))) :
    ∃ t u, fs.load p = .ok t ∧ fs.load q = .ok u ∧
      (∀ order, Rearranged order records others → SameColumns order t u) ∧
      (NullLeftOut records others → SameColumns (List.range records.length) t u) := by
  have unique := record_keys_distinct _ (read_distinct parsed) rfl
  have otherUnique := record_keys_distinct _ (read_distinct otherParsed) rfl
  obtain ⟨t, table, made⟩ := table_of_records records unique
  obtain ⟨u, otherTable, remade⟩ := table_of_records others otherUnique
  refine ⟨t, u, ?_, ?_, fun order arranged => ?_, fun fewer => ?_⟩
  · rw [load_json json found decoded parsed, columns_of_records records unique]
    exact table
  · rw [load_json otherJson otherFound otherDecoded otherParsed, columns_of_records others otherUnique]
    exact otherTable
  · exact same_columns made remade (rearranged_cells arranged otherUnique)
  · exact same_columns made remade (left_out_cells fewer unique)

theorem turned_records_load :
    let records : List Record := [[("a", .null), ("b", .bool true)], [("a", .string "x")]]
    let turned : List Record := [[("a", .string "x")], [("b", .bool true), ("a", .null)]]
    let fewer : List Record := [[("b", .bool true)], [("a", .string "x")]]
    let file (records : List Record) : Node := .file (.bytes (Utf8.encode (Value.array (records.map .object)).toText))
    let fs : FileSystem := ⟨[([Utf8.encodeString "a.json"], file records), ([Utf8.encodeString "b.json"], file turned),
      ([Utf8.encodeString "c.json"], file fewer)], []⟩
    ∃ t u v, fs.load (Utf8.encodeString "a.json") = .ok t ∧ fs.load (Utf8.encodeString "b.json") = .ok u ∧
      fs.load (Utf8.encodeString "c.json") = .ok v ∧ SameColumns [1, 0] t u ∧ SameColumns [0, 1] t v := by
  intro records turned fewer file fs
  have null := Written.null 125
  have yes := Written.bool 125 true
  have x := Written.string 125 "x"
  have each : (∀ r ∈ records, ∀ m ∈ r, Written 125 m.2) ∧ (∀ r ∈ turned, ∀ m ∈ r, Written 125 m.2) ∧
      ∀ r ∈ fewer, ∀ m ∈ r, Written 125 m.2 := by
    simp only [records, turned, fewer, List.forall_mem_cons, List.not_mem_nil, false_implies, implies_true, and_true]
    exact ⟨⟨⟨null, yes⟩, x⟩, ⟨x, yes, null⟩, yes, x⟩
  have parsed := read_text _ (written_records 125 records (by decide) each.1)
  have turnedParsed := read_text _ (written_records 125 turned (by decide) each.2.1)
  have fewerParsed := read_text _ (written_records 125 fewer (by decide) each.2.2)
  have decoded := Utf8.decode_encode
  have arranged : Rearranged [1, 0] records turned :=
    ⟨by decide, .cons (List.Perm.refl _) (.cons (List.Perm.swap _ _ _) .nil)⟩
  have leftOut : NullLeftOut records fewer := .mk [] [[("a", .string "x")]] [] [("b", .bool true)] "a" (by decide)
  have json : Format.ofPath (Utf8.encodeString "a.json") = .json := by decide +kernel
  have turnedJson : Format.ofPath (Utf8.encodeString "b.json") = .json := by decide +kernel
  have fewerJson : Format.ofPath (Utf8.encodeString "c.json") = .json := by decide +kernel
  have found : fs.find (Utf8.encodeString "a.json") = .ok (file records) := rfl
  have turnedFound : fs.find (Utf8.encodeString "b.json") = .ok (file turned) := rfl
  have fewerFound : fs.find (Utf8.encodeString "c.json") = .ok (file fewer) := rfl
  obtain ⟨t, u, first, second, reordered, _⟩ := record_order_is_free json turnedJson found turnedFound
    (decoded _) (decoded _) parsed turnedParsed
  obtain ⟨t', v, again, third, _, dropped⟩ := record_order_is_free json fewerJson found fewerFound
    (decoded _) (decoded _) parsed fewerParsed
  obtain rfl := Except.ok.inj (first.symm.trans again)
  exact ⟨t, u, v, first, second, third, reordered [1, 0] arranged, dropped leftOut⟩

end Loading

end Json

end TablePeek
