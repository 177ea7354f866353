import TablePeek.Proofs.Table.Trips

set_option autoImplicit false

namespace TablePeek

def Field.loose (f : Field) : Field := ⟨f.name, f.type, true⟩

namespace Batch

def Agrees (schema : Schema) (b : Batch) : Prop := b.columns.map Column.type = schema.map Field.type

instance (schema : Schema) (b : Batch) : Decidable (b.Agrees schema) :=
  inferInstanceAs (Decidable (b.columns.map Column.type = schema.map Field.type))

def NullsAllowed (schema : Schema) (b : Batch) : Prop :=
  List.Forall₂ (fun (f : Field) (c : Column) => none ∈ c.entries → f.nullable = true) schema b.columns

def FirstOffence (schema : Schema) (columns : List Column) (f : Field) (c : Column) : Prop :=
  ∃ fields later front rest, schema = fields ++ f :: later ∧ columns = front ++ c :: rest ∧
    front.map Column.type = fields.map Field.type ∧ c.type ≠ f.type

end Batch

namespace Table

def Shaped (t : Table) : Prop := ∀ b ∈ t.batches, b.columns.length = t.schema.length

instance (t : Table) : Decidable t.Shaped :=
  inferInstanceAs (Decidable (∀ b ∈ t.batches, b.columns.length = t.schema.length))

def Agrees (t : Table) : Prop := ∀ b ∈ t.batches, b.rows ≠ 0 → b.Agrees t.schema

instance (t : Table) : Decidable t.Agrees :=
  inferInstanceAs (Decidable (∀ b ∈ t.batches, b.rows ≠ 0 → b.Agrees t.schema))

def NullsAllowed (t : Table) : Prop := ∀ b ∈ t.batches, b.NullsAllowed t.schema

def FirstOffence (t : Table) (f : Field) (c : Column) : Prop :=
  ∃ before b after, t.batches = before ++ b :: after ∧ (∀ a ∈ before, a.rows ≠ 0 → a.Agrees t.schema) ∧
    b.rows ≠ 0 ∧ Batch.FirstOffence t.schema b.columns f c

section Columns

variable {schema : Schema} {columns : List Column} {f : Field} {c : Column}

theorem check_columns_agreeing (agrees : columns.map Column.type = schema.map Field.type) :
    checkColumns schema columns = .ok () := by
  induction schema generalizing columns with
  | nil =>
    obtain rfl : columns = [] := List.map_eq_nil_iff.mp agrees
    rfl
  | cons f fields ih =>
    cases columns with
    | nil => rfl
    | cons c rest =>
      obtain ⟨type, others⟩ := List.cons.inj agrees
      rw [checkColumns, if_pos type, ih others]

theorem check_columns_offending (offence : Batch.FirstOffence schema columns f c) :
    checkColumns schema columns = .error (.incompatible f.name f.type c.type) := by
  obtain ⟨fields, later, front, rest, rfl, rfl, types, differs⟩ := offence
  induction fields generalizing front with
  | nil =>
    obtain rfl : front = [] := List.map_eq_nil_iff.mp types
    rw [List.nil_append, List.nil_append, checkColumns, if_neg differs]
  | cons g fields ih =>
    cases front with
    | nil => cases types
    | cons d front =>
      obtain ⟨type, others⟩ := List.cons.inj types
      rw [List.cons_append, List.cons_append, checkColumns, if_pos type, ih front others]

theorem offence_behind {g : Field} {d : Column} (type : d.type = g.type)
    (offence : Batch.FirstOffence schema columns f c) : Batch.FirstOffence (g :: schema) (d :: columns) f c := by
  obtain ⟨fields, later, front, rest, rfl, rfl, types, differs⟩ := offence
  exact ⟨g :: fields, later, d :: front, rest, rfl, rfl, congrArg₂ List.cons type types, differs⟩

theorem columns_cases (count : columns.length = schema.length) :
    columns.map Column.type = schema.map Field.type ∨ ∃ f c, Batch.FirstOffence schema columns f c := by
  induction schema generalizing columns with
  | nil => exact .inl (by rw [List.eq_nil_of_length_eq_zero count]; rfl)
  | cons g fields ih =>
    obtain ⟨d, rest, rfl⟩ := List.exists_cons_of_length_eq_add_one count
    by_cases type : d.type = g.type
    · rcases ih (Nat.succ.inj count) with agrees | ⟨f, c, offence⟩
      · exact .inl (congrArg₂ List.cons type agrees)
      · exact .inr ⟨f, c, offence_behind type offence⟩
    · exact .inr ⟨g, d, [], fields, [], rest, rfl, rfl, rfl, type⟩

end Columns

section Batches

variable {t : Table} {schema : Schema} {batches : List Batch} {f : Field} {c : Column}

theorem check_batches_past (agree : ∀ b ∈ batches, b.Agrees schema) (rest : List Batch) :
    checkBatches schema (batches ++ rest) = checkBatches schema rest := by
  induction batches with
  | nil => rfl
  | cons b others ih =>
    rw [List.forall_mem_cons] at agree
    rw [List.cons_append, checkBatches, check_columns_agreeing agree.1]
    exact ih agree.2

theorem filled_agree (agree : ∀ b ∈ batches, b.rows ≠ 0 → b.Agrees schema) : ∀ b ∈ filled batches, b.Agrees schema := by
  intro b member
  obtain ⟨among, some⟩ := List.mem_filter.mp member
  exact agree b among (of_decide_eq_true some)

theorem check_agreeing (agrees : t.Agrees) : checkBatches t.schema (filled t.batches) = .ok () := by
  have checked := check_batches_past (filled_agree agrees) []
  rw [List.append_nil] at checked
  exact checked

theorem check_offending (offence : t.FirstOffence f c) :
    checkBatches t.schema (filled t.batches) = .error (.incompatible f.name f.type c.type) := by
  obtain ⟨before, b, after, parts, agree, some, first⟩ := offence
  have kept : filled t.batches = filled before ++ b :: filled after := by
    rw [parts, filled, List.filter_append, ← filled, ← filled, filled_cons_some b after some]
  rw [kept, check_batches_past (filled_agree agree), checkBatches, check_columns_offending first]

theorem offence_later {b : Batch} (agrees : b.rows ≠ 0 → b.Agrees schema)
    (offence : FirstOffence ⟨schema, batches⟩ f c) : FirstOffence ⟨schema, b :: batches⟩ f c := by
  obtain ⟨before, d, after, rfl, agree, some, first⟩ := offence
  exact ⟨b :: before, d, after, rfl, List.forall_mem_cons.mpr ⟨agrees, agree⟩, some, first⟩

theorem batches_cases (counts : ∀ b ∈ batches, b.columns.length = schema.length) :
    Agrees ⟨schema, batches⟩ ∨ ∃ f c, FirstOffence ⟨schema, batches⟩ f c := by
  induction batches with
  | nil => exact .inl (List.forall_mem_nil _)
  | cons b rest ih =>
    rw [List.forall_mem_cons] at counts
    have agreeing (agrees : b.rows ≠ 0 → b.Agrees schema) :
        Agrees ⟨schema, b :: rest⟩ ∨ ∃ f c, FirstOffence ⟨schema, b :: rest⟩ f c := by
      rcases ih counts.2 with others | ⟨f, c, offence⟩
      · exact .inl (List.forall_mem_cons.mpr ⟨agrees, others⟩)
      · exact .inr ⟨f, c, offence_later agrees offence⟩
    by_cases some : b.rows = 0
    · exact agreeing fun none => absurd some none
    · rcases columns_cases counts.1 with agrees | ⟨f, c, first⟩
      · exact agreeing fun _ => agrees
      · exact .inr ⟨f, c, [], b, rest, rfl, List.forall_mem_nil _, some, first⟩

end Batches

section Lengths

-- Columns that fit have no null where the schema allows for none, but a table is taken whatever nulls it has. How long
-- joined columns get does not depend on where nulls may stand, so they are measured with room for nulls everywhere.
theorem join_columns_loose (schema : Schema) (parts : List (List Column)) :
    (joinColumns (schema.map Field.loose) parts).map Column.length = (joinColumns schema parts).map Column.length := by
  induction schema generalizing parts with
  | nil => rfl
  | cons f fields ih =>
    rw [List.map_cons, joinColumns, joinColumns, List.map_cons, List.map_cons, ih]
    apply congrArg (· :: _)
    unfold joinColumn
    cases f.nullable with
    | true => rfl
    | false => exact (List.length_map _).symm

theorem columns_suit {schema : Schema} {columns : List Column} (types : columns.map Column.type = schema.map Field.type)
    (nulls : List.Forall₂ (fun (f : Field) (c : Column) => none ∈ c.entries → f.nullable = true) schema columns) :
    List.Forall₂ Column.Suits schema columns := by
  induction nulls with
  | nil => exact .nil
  | cons allowed _ ih =>
    obtain ⟨type, others⟩ := List.cons.inj types
    exact .cons ⟨type, allowed⟩ (ih others)

theorem loose_fit {schema : Schema} {b : Batch} (agrees : b.Agrees schema) :
    List.Forall₂ (Column.Fits b.rows) (schema.map Field.loose) b.columns := by
  have count : b.columns.length = schema.length := by simpa using congrArg List.length agrees
  apply suits_fit _ b.holds.lengths
  apply columns_suit
  · rw [List.map_map]
    exact agrees
  · exact List.forall₂_map_left_iff.mpr (List.forall₂_iff_get.mpr ⟨count.symm, fun _ _ _ _ => rfl⟩)

theorem joined_lengths {schema : Schema} {batches : List Batch} (agree : ∀ b ∈ batches, b.Agrees schema) :
    ∀ c ∈ joinColumns schema (batches.map Batch.columns), c.length = countRows batches := by
  have loosely := (join_batches (schema.map Field.loose) batches fun b member => loose_fit (agree b member)).1
  intro c member
  have among := List.mem_map_of_mem (f := Column.length) member
  rw [← join_columns_loose] at among
  obtain ⟨d, joined, same⟩ := List.mem_map.mp among
  rw [← same, ← Column.values_length]
  exact loosely _ (List.mem_map_of_mem joined)

theorem common_length_ok {rows : Nat} (columns : List Column) (equal : ∀ c ∈ columns, c.length = rows) :
    ∃ counted, commonLength columns = .ok counted := by
  cases columns with
  | nil => exact ⟨_, rfl⟩
  | cons c rest => exact ⟨_, common_length_equal _ (List.cons_ne_nil c rest) equal⟩

end Lengths

section Write

variable {t : Table} {f : Field} {c : Column}

def joined (t : Table) : List Column := joinColumns t.schema ((filled t.batches).map Batch.columns)

theorem write_checked (t : Table) : t.write =
    (checkBatches t.schema (filled t.batches)).bind fun _ =>
      (commonLength t.joined).map fun rows => ⟨t.schema, rows.1, t.joined, join_columns_hold _ _ rows.2⟩ := by
  have same : (t.batches.filter fun b => b.rows ≠ 0) = filled t.batches := rfl
  rw [write]
  simp only [same]
  cases checkBatches t.schema (filled t.batches) <;> rfl

theorem write_filled (t : Table) : write ⟨t.schema, filled t.batches⟩ = t.write := by
  have twice : filled (filled t.batches) = filled t.batches := by simp [filled]
  rw [write_checked, write_checked t]
  unfold joined
  dsimp only
  rw [twice]

theorem write_offending (offence : t.FirstOffence f c) : t.write = .error (.incompatible f.name f.type c.type) := by
  rw [write_checked, check_offending offence]
  rfl

theorem write_agreeing (agrees : t.Agrees) : ∃ s, t.write = .ok s := by
  obtain ⟨counted, common⟩ := common_length_ok t.joined (joined_lengths (filled_agree agrees))
  rw [write_checked, check_agreeing agrees, common]
  exact ⟨_, rfl⟩

theorem written_rows {s : StoredTable} (agrees : t.Agrees) (nulls : t.NullsAllowed) (columns : t.schema ≠ [])
    (written : t.write = .ok s) : s.schema = t.schema ∧ s.rowList = t.rowList := by
  have matching : Matching ⟨t.schema, filled t.batches⟩ := fun b member =>
    columns_suit (filled_agree agrees b member) (nulls b (List.mem_of_mem_filter member))
  have again := @write_matching ⟨t.schema, filled t.batches⟩ columns matching
  rw [write_filled, written] at again
  obtain ⟨_, same, schema, rows⟩ := again
  obtain rfl := Except.ok.inj same
  exact ⟨schema, rows.trans (filled_rows t.batches)⟩

theorem written_columnless {s : StoredTable} {batches : List Batch} (written : write ⟨[], batches⟩ = .ok s) :
    s = ⟨[], 0, [], .nil⟩ := by
  rw [write_checked] at written
  cases checked : checkBatches [] (filled batches) with
  | error e =>
    rw [checked] at written
    cases written
  | ok =>
    rw [checked] at written
    exact (Except.ok.inj written).symm

end Write

end Table

section Files

variable {fs emptied : FileSystem} {p : Path} {t : Table}

theorem write_table_result (creatable : fs.write p (.bytes []) = .ok emptied) (t : Table) :
    (SampleWriter.writeTable fs p t).2 = (t.write.mapError .writing).map fun _ => () := by
  rw [SampleWriter.writeTable]
  simp only [creatable]
  cases t.write <;> rfl

theorem taken_iff (creatable : fs.write p (.bytes []) = .ok emptied) (shaped : t.Shaped) :
    (SampleWriter.writeTable fs p t).2 = .ok () ↔ t.Agrees := by
  rw [write_table_result creatable]
  constructor
  · intro taken
    rcases Table.batches_cases shaped with agrees | ⟨f, c, offence⟩
    · exact agrees
    · rw [Table.write_offending offence] at taken
      cases taken
  · intro agrees
    obtain ⟨s, written⟩ := Table.write_agreeing agrees
    rw [written]
    rfl

theorem file_loads {fs' : FileSystem} (nulls : t.NullsAllowed) (agrees : t.Agrees)
    (done : SampleWriter.writeTable fs p t = (fs', .ok ())) :
    ∃ found loaded, fs'.find p = .ok found ∧ Load.columnar found = .ok loaded ∧
      (Format.ofPath p = .parquet → fs'.load p = .ok loaded) ∧
      loaded.schema = t.schema ∧ loaded.rowList = if t.schema = [] then [] else t.rowList := by
  obtain ⟨s, written, found⟩ := write_table_stores done
  have loads (parquet : Format.ofPath p = .parquet) : fs'.load p = .ok s.read := by
    rw [FileSystem.load, found, Load.opened, parquet]
    rfl
  refine ⟨_, s.read, found, rfl, loads, ?_⟩
  by_cases none : t.schema = []
  · obtain ⟨_, batches⟩ := t
    obtain rfl := none
    obtain rfl := Table.written_columnless written
    rw [if_pos rfl, StoredTable.read_rows]
    exact ⟨rfl, rfl⟩
  · obtain ⟨schema, rows⟩ := Table.written_rows agrees nulls none written
    rw [if_neg none, StoredTable.read_rows]
    exact ⟨schema, rows⟩

/-- A columnar file takes a table if all of its batches that have rows agree with the schema, and otherwise names the
first column that does not. What it takes it gives back row by row, unless there is no column to count the rows by. -/
theorem files_take_agreeing_tables (creatable : fs.write p (.bytes []) = .ok emptied) (shaped : t.Shaped) :
    ((SampleWriter.writeTable fs p t).2 = .ok () ↔ t.Agrees) ∧
    (¬ t.Agrees → ∃ f c, t.FirstOffence f c) ∧
    (∀ f c, t.FirstOffence f c → ∃ e, (SampleWriter.writeTable fs p t).2 = .error e ∧
      e.context = "writing record batch" ∧
      e.cause = "Arrow: Incompatible type. Field '" ++ f.name ++ "' has type " ++ f.type.name ++ ", array has type " ++
        c.type.name) ∧
    (t.NullsAllowed → ∀ fs', SampleWriter.writeTable fs p t = (fs', .ok ()) →
      ∃ found loaded, fs'.find p = .ok found ∧ Load.columnar found = .ok loaded ∧
        (Format.ofPath p = .parquet → fs'.load p = .ok loaded) ∧
        loaded.schema = t.schema ∧ loaded.rowList = if t.schema = [] then [] else t.rowList) := by
  have taken := taken_iff creatable shaped
  refine ⟨taken, fun differs => ?_, fun f c offence => ?_, fun nulls fs' done => ?_⟩
  · exact (Table.batches_cases shaped).resolve_left differs
  · exact ⟨_, by rw [write_table_result creatable, Table.write_offending offence]; rfl, rfl, rfl⟩
  · exact file_loads nulls (taken.mp (congrArg Prod.snd done)) done

theorem mixed_batches_told_apart :
    let schema : Schema := [⟨"n", .int64, true⟩, ⟨"s", .text, false⟩]
    let good : List Batch := [
      .empty [⟨"x", .boolean, true⟩, ⟨"y", .float64, true⟩],
      ⟨[⟨"m", .int64, true⟩, ⟨"s", .text, true⟩], 2, [⟨.int64, [some 1, none]⟩, ⟨.text, [some "a", some ""]⟩],
        by decide⟩]
    let bad : List Batch := [
      ⟨[⟨"n", .int64, true⟩, ⟨"s", .boolean, false⟩], 1, [⟨.int64, [some 3]⟩, ⟨.boolean, [some true]⟩], by decide⟩,
      ⟨[⟨"n", .text, true⟩, ⟨"s", .text, false⟩], 1, [⟨.text, [some "4"]⟩, ⟨.text, [some "d"]⟩], by decide⟩]
    let p := Utf8.encodeString "t.parquet"
    Table.Shaped ⟨schema, good⟩ ∧ Table.NullsAllowed ⟨schema, good⟩ ∧ Table.Shaped ⟨schema, good ++ bad⟩ ∧
      (∃ fs' loaded, SampleWriter.writeTable (.empty []) p ⟨schema, good⟩ = (fs', .ok ()) ∧
        fs'.load p = .ok loaded ∧ loaded.schema = schema ∧
        loaded.rowList = [[⟨.int64, some 1⟩, ⟨.text, some "a"⟩], [⟨.int64, none⟩, ⟨.text, some ""⟩]]) ∧
      ∃ e, (SampleWriter.writeTable (.empty []) p ⟨schema, good ++ bad⟩).2 = .error e ∧
        e.context = "writing record batch" ∧
        e.cause = "Arrow: Incompatible type. Field 's' has type Utf8, array has type Boolean" := by
  intro schema good bad p
  have creatable : (FileSystem.empty []).write p (.bytes []) = .ok _ := rfl
  have shaped : Table.Shaped ⟨schema, good ++ bad⟩ := by decide
  have goodShaped : Table.Shaped ⟨schema, good⟩ := fun b member => shaped b (List.mem_append_left bad member)
  have nulls : Table.NullsAllowed ⟨schema, good⟩ := by
    simp only [Table.NullsAllowed, good, List.forall_mem_cons]
    exact ⟨.cons (by decide) (.cons (by decide) .nil), .cons (by decide) (.cons (by decide) .nil), List.forall_mem_nil _⟩
  have agrees : Table.Agrees ⟨schema, good⟩ := by decide
  have offence : Table.FirstOffence ⟨schema, good ++ bad⟩ ⟨"s", .text, false⟩ ⟨.boolean, [some true]⟩ :=
    ⟨good, _, _, rfl, agrees, by decide, [schema[0]], [], [_], [], rfl, rfl, rfl, by decide⟩
  obtain ⟨taken, _, _, gives⟩ := files_take_agreeing_tables creatable goodShaped
  obtain ⟨_, _, names, _⟩ := files_take_agreeing_tables creatable shaped
  refine ⟨goodShaped, nulls, shaped, ?_, names _ _ offence⟩
  obtain ⟨found, loaded, _, _, loads, sameSchema, rows⟩ := gives nulls _ (Prod.ext rfl (taken.mpr agrees))
  exact ⟨_, loaded, Prod.ext rfl (taken.mpr agrees), loads (by decide +kernel), sameSchema, rows⟩

theorem columnar_bytes {bs : Columnar.Bytes} {s : StoredTable} (read : Columnar.read bs = .ok s) :
    Load.columnar (.file (.bytes bs)) = .ok s.read := by simp only [Load.columnar, read]

-- A file can count rows without a column; what is written of such a table has none.
theorem columnless_rows_lost :
    let found : Node := .file (.bytes [0x50, 0x41, 0x52, 0x31, 0x15, 0x02, 0x19, 0x1C, 0x48, 0x06, 0x73, 0x63, 0x68,
      0x65, 0x6D, 0x61, 0x15, 0x00, 0x00, 0x16, 0x06, 0x19, 0x1C, 0x19, 0x0C, 0x16, 0x00, 0x16, 0x06, 0x00, 0x00, 0x1B,
      0x00, 0x00, 0x00, 0x50, 0x41, 0x52, 0x31])
    let t : Table := ⟨[], [⟨[], 3, [], .nil⟩]⟩
    let p := Utf8.encodeString "t.parquet"
    Load.columnar found = .ok t ∧ t.Shaped ∧ t.Agrees ∧ t.NullsAllowed ∧
      ∃ fs' loaded, SampleWriter.writeTable (.empty []) p t = (fs', .ok ()) ∧ fs'.load p = .ok loaded ∧
        loaded.rowList ≠ t.rowList := by
  intro found t p
  have filled : StoredTable.read ⟨[], 3, [], .nil⟩ = t := by
    rw [StoredTable.read, StoredTable.batches_some _ (Nat.succ_ne_zero 2), StoredTable.batches_none _ rfl]
    rfl
  have empty : StoredTable.read ⟨[], 0, [], .nil⟩ = .empty := by
    rw [StoredTable.read, StoredTable.batches_none _ rfl]
    rfl
  refine ⟨?_, by decide, by decide, ?_, ?_⟩
  · exact (columnar_bytes (by decide +kernel)).trans (congrArg Except.ok filled)
  · exact List.forall_mem_cons.mpr ⟨.nil, List.forall_mem_nil _⟩
  · refine ⟨_, StoredTable.read ⟨[], 0, [], .nil⟩, rfl, rfl, ?_⟩
    rw [empty]
    decide

end Files

end TablePeek
