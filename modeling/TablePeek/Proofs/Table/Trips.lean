import TablePeek.Proofs.Table.Invariant
import TablePeek.Proofs.Table.Rows

/-!
Previews and trips through files. A trip writes a table to a columnar file and loads it again. Neither
previews nor trips touch a row that stays in view, and a trip leaves nothing of how the rows were cut.
-/

set_option autoImplicit false

namespace TablePeek

structure Column.Suits (f : Field) (c : Column) : Prop where
  type : c.type = f.type
  nulls : none ∈ c.entries → f.nullable = true

def Table.Matching (t : Table) : Prop := ∀ b ∈ t.batches, List.Forall₂ Column.Suits t.schema b.columns

theorem Table.WellFormed.matching {t : Table} (good : t.WellFormed) : t.Matching := fun b member =>
  (good.batches b member).columns.imp fun _ _ fits => ⟨fits.type, fits.nulls⟩

-- The cut that reading makes: as many rows as fit in every batch but the last.
structure Table.Recut (t : Table) : Prop where
  full : ∀ b ∈ t.batches.dropLast, b.rows = 1024
  last : ∀ b, t.batches.getLast? = some b → 1 ≤ b.rows ∧ b.rows ≤ 1024
  empty : t.numRows = 0 → t.batches = []

def StoredTable.rowList (s : StoredTable) : List Row := rowsOf .blank s.rows (s.columns.map Column.values)

namespace Table

section Join

variable {f : Field} {n : Nat}

theorem entries_as_own (t : ColumnType) (entries : List (Option t.Entry)) :
    Column.entriesAs? t ⟨t, entries⟩ = some entries := dif_pos rfl

theorem fill_nulls_full (c : Column) (full : none ∉ c.entries) : c.fillNulls = c := by
  have filled : c.entries.map (fun e => some (e.getD c.type.blank)) = c.entries.map id := by
    apply List.map_congr_left
    intro e member
    cases e with
    | none => exact absurd member full
    | some x => rfl
  rw [Column.fillNulls, filled, List.map_id]

theorem join_column_none (f : Field) : joinColumn f [] = ⟨f.type, []⟩ := by
  rw [joinColumn]
  cases f.nullable <;> rfl

theorem join_column_values (c : Column) (rest : List (Option Column)) (fits : c.Fits n f) :
    (joinColumn f (some c :: rest)).values = c.values ++ (joinColumn f rest).values := by
  obtain ⟨type, entries⟩ := c
  obtain rfl : type = f.type := fits.type
  unfold joinColumn
  rw [List.flatMap_cons, Option.bind_some, entries_as_own, Option.getD_some]
  by_cases nullable : f.nullable = true
  · rw [if_pos nullable, if_pos nullable]
    exact List.map_append
  · have kept := fill_nulls_full ⟨f.type, entries⟩ fun listed => nullable (fits.nulls listed)
    rw [if_neg nullable, if_neg nullable, ← kept]
    simp only [Column.fillNulls, Column.values, List.map_append]

theorem join_columns_values (schema : Schema) (columns : List Column) (rest : List (List Column))
    (fit : List.Forall₂ (Column.Fits n) schema columns) :
    (joinColumns schema (columns :: rest)).map Column.values =
      List.zipWith (· ++ ·) (columns.map Column.values) ((joinColumns schema rest).map Column.values) := by
  induction fit generalizing rest with
  | nil => rfl
  | cons fits _ ih =>
    rw [joinColumns, joinColumns]
    exact congrArg₂ List.cons (join_column_values _ _ fits) (ih (rest.map List.tail))

theorem join_columns_length (schema : Schema) (parts : List (List Column)) :
    (joinColumns schema parts).length = schema.length := by
  induction schema generalizing parts with
  | nil => rfl
  | cons f fields ih => rw [joinColumns, List.length_cons, List.length_cons, ih]

theorem join_columns_none (schema : Schema) : ∀ c ∈ joinColumns schema [], c.values = [] := by
  induction schema with
  | nil => simp [joinColumns]
  | cons f fields ih =>
    intro c member
    rcases List.mem_cons.mp member with rfl | later
    · rw [List.map_nil, join_column_none]
      rfl
    · exact ih c later

theorem fits_lengths {schema : Schema} {columns : List Column} (fit : List.Forall₂ (Column.Fits n) schema columns) :
    ∀ values ∈ columns.map Column.values, values.length = n := by
  rw [List.forall_mem_map]
  exact fun c member => (Column.values_length c).trans (Column.fit_lengths fit c member)

theorem suits_fit {schema : Schema} {columns : List Column} (suits : List.Forall₂ Column.Suits schema columns)
    (lengths : ∀ c ∈ columns, c.length = n) : List.Forall₂ (Column.Fits n) schema columns := by
  induction suits with
  | nil => exact .nil
  | cons first _ ih =>
    obtain ⟨length, others⟩ := List.forall_mem_cons.mp lengths
    exact .cons ⟨first.type, length, first.nulls⟩ (ih others)

theorem zip_append_lengths (m n : Nat) (upper lower : List (List Value)) (full : ∀ c ∈ upper, c.length = m)
    (lowerFull : ∀ c ∈ lower, c.length = n) : ∀ c ∈ List.zipWith (· ++ ·) upper lower, c.length = m + n := by
  intro c member
  obtain ⟨j, inside, rfl⟩ := List.mem_iff_getElem.mp member
  rw [List.length_zipWith] at inside
  rw [List.getElem_zipWith, List.length_append, full _ (List.getElem_mem _), lowerFull _ (List.getElem_mem _)]

theorem join_batches (schema : Schema) (batches : List Batch)
    (fit : ∀ b ∈ batches, List.Forall₂ (Column.Fits b.rows) schema b.columns) :
    (∀ c ∈ (joinColumns schema (batches.map Batch.columns)).map Column.values, c.length = countRows batches) ∧
      rowsOf .blank (countRows batches) ((joinColumns schema (batches.map Batch.columns)).map Column.values) =
        batches.flatMap Batch.rowList := by
  induction batches with
  | nil =>
    refine ⟨fun c member => ?_, rfl⟩
    obtain ⟨d, joined, rfl⟩ := List.mem_map.mp member
    rw [join_columns_none schema d joined]
    rfl
  | cons b rest ih =>
    have first := fit b List.mem_cons_self
    obtain ⟨lengths, rows⟩ := ih fun c member => fit c (List.mem_cons_of_mem b member)
    have full := fits_lengths first
    have paired : (b.columns.map Column.values).length =
        ((joinColumns schema (rest.map Batch.columns)).map Column.values).length := by
      rw [List.length_map, List.length_map, join_columns_length, first.length_eq]
    rw [List.map_cons, join_columns_values schema b.columns _ first, countRows, List.flatMap_cons,
      rows_of_append _ _ _ _ _ full paired, rows]
    exact ⟨zip_append_lengths _ _ _ _ full lengths, rfl⟩

end Join

section Write

variable {t : Table}

theorem check_columns_fit {schema : Schema} {columns : List Column} {n : Nat}
    (fit : List.Forall₂ (Column.Fits n) schema columns) : checkColumns schema columns = .ok () := by
  induction fit with
  | nil => rfl
  | cons fits _ ih => rw [checkColumns, if_pos fits.type, ih]

theorem check_batches_fit (schema : Schema) (batches : List Batch)
    (fit : ∀ b ∈ batches, List.Forall₂ (Column.Fits b.rows) schema b.columns) :
    checkBatches schema batches = .ok () := by
  induction batches with
  | nil => rfl
  | cons b rest ih =>
    rw [checkBatches, check_columns_fit (fit b List.mem_cons_self)]
    exact ih fun c member => fit c (List.mem_cons_of_mem b member)

theorem common_length_equal {rows : Nat} (columns : List Column) (nonempty : columns ≠ [])
    (equal : ∀ c ∈ columns, c.length = rows) : commonLength columns = .ok ⟨rows, equal⟩ := by
  obtain ⟨c, rest, rfl⟩ := List.exists_cons_of_ne_nil nonempty
  obtain ⟨rfl, others⟩ := List.forall_mem_cons.mp equal
  rw [commonLength]
  split
  · rfl
  · rename_i d found
    have differs : d.length ≠ c.length := by simpa using List.find?_some found
    exact absurd (others d (List.mem_of_find?_eq_some found)) differs

def filled (batches : List Batch) : List Batch := batches.filter fun b => b.rows ≠ 0

theorem filled_cons_none (b : Batch) (rest : List Batch) (none : b.rows = 0) : filled (b :: rest) = filled rest :=
  List.filter_cons_of_neg (by simp [none])

theorem filled_cons_some (b : Batch) (rest : List Batch) (some : b.rows ≠ 0) :
    filled (b :: rest) = b :: filled rest :=
  List.filter_cons_of_pos (by simp [some])

theorem filled_rows (batches : List Batch) : (filled batches).flatMap Batch.rowList = batches.flatMap Batch.rowList := by
  induction batches with
  | nil => rfl
  | cons b rest ih =>
    by_cases none : b.rows = 0
    · rw [filled_cons_none b rest none, ih, List.flatMap_cons, Batch.rowList, none, rows_of_none, List.nil_append]
    · rw [filled_cons_some b rest none, List.flatMap_cons, List.flatMap_cons, ih]

theorem write_matching (columns : t.schema ≠ []) (matching : t.Matching) :
    ∃ s, t.write = .ok s ∧ s.schema = t.schema ∧ s.rowList = t.rowList := by
  have fit : ∀ b ∈ filled t.batches, List.Forall₂ (Column.Fits b.rows) t.schema b.columns :=
    fun b member => suits_fit (matching b (List.mem_of_mem_filter member)) b.holds.lengths
  obtain ⟨lengths, rows⟩ := join_batches t.schema _ fit
  have nonempty : joinColumns t.schema ((filled t.batches).map Batch.columns) ≠ [] := by
    apply List.ne_nil_of_length_pos
    rw [join_columns_length]
    exact List.length_pos_of_ne_nil columns
  have equal : ∀ c ∈ joinColumns t.schema ((filled t.batches).map Batch.columns), c.length = countRows (filled t.batches) :=
    fun c member => (Column.values_length c).symm.trans (lengths _ (List.mem_map_of_mem member))
  have checked := check_batches_fit t.schema (filled t.batches) fit
  have common := common_length_equal _ nonempty equal
  refine ⟨⟨t.schema, _, _, join_columns_hold _ _ equal⟩, ?_, rfl, rows.trans (filled_rows t.batches)⟩
  unfold filled at checked common
  simp only [write, checked, common]
  rfl

end Write

end Table

namespace StoredTable

variable {s : StoredTable}

theorem front_rows (s : StoredTable) : s.front.rowList = s.rowList.take batchRows := by
  rw [Batch.rowList, front, rowList, ← rows_of_take, List.map_map, List.map_map]
  exact congrArg _ (List.map_congr_left fun c _ => Column.values_take batchRows c)

theorem behind_rows (s : StoredTable) : s.behind.rowList = s.rowList.drop batchRows := by
  rw [rowList, behind, rowList, ← rows_of_drop, List.map_map, List.map_map]
  exact congrArg _ (List.map_congr_left fun c _ => Column.values_drop batchRows c)

theorem batches_rows (s : StoredTable) : s.batches.flatMap Batch.rowList = s.rowList := by
  induction s using StoredTable.batches.induct with
  | case1 s none => rw [s.batches_none none, rowList, none, rows_of_none, List.flatMap_nil]
  | case2 s some ih =>
    rw [s.batches_some some, List.flatMap_cons, ih, front_rows, behind_rows, List.take_append_drop]

theorem read_rows (s : StoredTable) : s.read.rowList = s.rowList := batches_rows s

theorem row_list_length (s : StoredTable) : s.rowList.length = s.rows := rows_of_length _ _ _

theorem batches_recut (s : StoredTable) : (∀ b ∈ s.batches.dropLast, b.rows = 1024) ∧
    ∀ b, s.batches.getLast? = some b → 1 ≤ b.rows ∧ b.rows ≤ 1024 := by
  induction s using StoredTable.batches.induct with
  | case1 s none =>
    rw [s.batches_none none]
    exact ⟨List.forall_mem_nil _, fun b found => absurd found (by simp)⟩
  | case2 s some ih =>
    obtain ⟨full, last⟩ := ih
    rw [s.batches_some some]
    by_cases more : s.behind.rows = 0
    · -- Everything fits in this batch, and nothing is read after it.
      rw [s.behind.batches_none more]
      refine ⟨List.forall_mem_nil _, fun b found => ?_⟩
      obtain rfl := Option.some.inj found
      exact ⟨Nat.le_min.mpr ⟨by decide, Nat.pos_of_ne_zero some⟩, Nat.min_le_left _ _⟩
    · have many : batchRows ≤ s.rows := by
        apply Nat.le_of_lt
        exact Nat.lt_of_sub_pos (Nat.pos_of_ne_zero more)
      rw [s.behind.batches_some more] at full last ⊢
      rw [List.dropLast_cons_cons, List.getLast?_cons_cons, List.forall_mem_cons]
      exact ⟨⟨Nat.min_eq_left many, full⟩, last⟩

theorem read_recut (s : StoredTable) : s.read.Recut := by
  obtain ⟨full, last⟩ := batches_recut s
  refine ⟨full, last, fun none => ?_⟩
  rw [← Table.row_list_length, read_rows, row_list_length] at none
  exact s.batches_none none

theorem read_matching (s : StoredTable) : s.read.Matching := (read_well_formed s).matching

theorem stored_eq_of_rows {other : StoredTable} (schema : s.schema = other.schema)
    (rows : s.rowList = other.rowList) : s = other := by
  have count : s.rows = other.rows := by rw [← row_list_length, rows, row_list_length]
  have fit := s.holds.paired
  have otherFit : List.Forall₂ (Column.Fits s.rows) s.schema other.columns := by
    rw [schema, count]
    exact other.holds.paired
  have paired : s.columns.length = other.columns.length := fit.length_eq.symm.trans otherFit.length_eq
  have values : s.columns.map Column.values = other.columns.map Column.values := by
    rw [rowList, rowList, ← count] at rows
    apply rows_of_injective Value.blank s.rows _ (Table.fits_lengths fit) (Table.fits_lengths otherFit) rows
    rw [List.length_map, List.length_map, paired]
  refine StoredTable.ext schema count (List.ext_getElem paired fun j inside otherInside => ?_)
  have bound : j < s.schema.length := fit.length_eq ▸ inside
  have type : (s.columns[j]).type = (other.columns[j]).type :=
    (fit.get bound inside).type.trans (otherFit.get bound otherInside).type.symm
  have at_j := congrArg (fun l => l[j]?) values
  exact Column.eq_of_values type (by simpa [inside, otherInside] using at_j)

end StoredTable

-- A file can be made there, and loading it will not take it for text.
def FileSystem.Takes (fs : FileSystem) (p : Path) : Prop :=
  Format.ofPath p = .parquet ∧ ∃ place, fs.locateNew p = .ok place

inductive Step where
  | head (rows : Nat)
  | trip (path : Path)
deriving DecidableEq, Repr

inductive StepError where
  | writing (e : SampleWriter.Error)
  | loading (e : LoadError)
deriving DecidableEq, Repr

namespace Step

def run (fs : FileSystem) (t : Table) : Step → Except StepError (FileSystem × Table)
  | .head n => .ok (fs, t.head n)
  | .trip p =>
    match SampleWriter.writeTable fs p t with
    | (_, .error e) => .error (.writing e)
    | (fs, .ok ()) =>
      match fs.load p with
      | .error e => .error (.loading e)
      | .ok t => .ok (fs, t)

def runAll (fs : FileSystem) (t : Table) : List Step → Except StepError (FileSystem × Table)
  | [] => .ok (fs, t)
  | s :: rest =>
    match s.run fs t with
    | .error e => .error e
    | .ok (fs, t) => runAll fs t rest

def kept : List Step → Nat → Nat
  | [], rows => rows
  | .head n :: rest, rows => min n (kept rest rows)
  | .trip _ :: rest, rows => kept rest rows

end Step

section Files

variable {fs fs' : FileSystem} {p q : Path}

theorem write_takes (takes : fs.Takes p) (c : Content) : ∃ fs', fs.write p c = .ok fs' := by
  obtain ⟨_, place, located⟩ := takes
  exact ⟨fs.set place (.file c), by rw [FileSystem.write, located]; rfl⟩

theorem takes_kept {c : Content} (written : fs.write q c = .ok fs') (takes : fs.Takes p) : fs'.Takes p := by
  obtain ⟨format, place, found⟩ := takes
  obtain ⟨around, n, rfl, located⟩ := FileSystem.locate_new_cases found
  obtain ⟨otherAround, m, other, rfl⟩ := FileSystem.write_cases written
  have free : (fs.set (m :: otherAround) (.file c)).node? (n :: around) ≠ some .directory := by
    by_cases same : n :: around = m :: otherAround
    · rw [same, FileSystem.node_set_same _ (List.cons_ne_nil m otherAround)]
      simp
    · rw [FileSystem.node_set_other _ _ same]
      exact located.free
  exact ⟨format, _, FileSystem.locate_new_located
    (FileSystem.located_kept (FileSystem.set_keeps c other.free) located free)⟩

end Files

section Steps

variable {fs : FileSystem} {t : Table} {p : Path}

theorem trip_runs {s : StoredTable} (takes : fs.Takes p) (written : t.write = .ok s) :
    ∃ fs', Step.run fs t (.trip p) = .ok (fs', s.read) ∧ ∀ q, fs.Takes q → fs'.Takes q := by
  obtain ⟨emptied, made⟩ := write_takes takes (.bytes [])
  obtain ⟨full, again⟩ := FileSystem.write_again made (.stored s)
  have done : SampleWriter.writeTable fs p t = (full, .ok ()) := by
    rw [SampleWriter.writeTable]
    simp only [made, written, SampleWriter.replace_written again]
  have loaded : full.load p = .ok s.read := by
    rw [FileSystem.load, FileSystem.find_written again, Load.opened, takes.1]
    rfl
  refine ⟨full, ?_, fun q other => takes_kept again (takes_kept made other)⟩
  rw [Step.run]
  simp only [done, loaded]

theorem head_matching (n : Nat) (matching : t.Matching) : (t.head n).Matching := by
  intro b member
  obtain ⟨c, inTable, k, rfl⟩ := Table.take_rows_cut n t.batches b member
  apply List.forall₂_map_right_iff.mpr
  exact (matching c inTable).imp fun _ _ suits => ⟨suits.type, fun listed => suits.nulls (List.mem_of_mem_take listed)⟩

theorem write_read {s : StoredTable} (columns : s.schema ≠ []) : s.read.write = .ok s := by
  obtain ⟨again, written, schema, rows⟩ := Table.write_matching columns s.read_matching
  rw [written, StoredTable.stored_eq_of_rows schema (rows.trans s.read_rows)]

theorem kept_min (steps : List Step) (n rows : Nat) : Step.kept steps (min n rows) = min n (Step.kept steps rows) := by
  induction steps with
  | nil => rfl
  | cons step rest ih =>
    cases step with
    | head m => rw [Step.kept, Step.kept, ih, Nat.min_left_comm]
    | trip p => exact ih

structure Leaves (fs : FileSystem) (t : Table) (steps : List Step) (fs' : FileSystem) (t' : Table) : Prop where
  takes : ∀ q, fs.Takes q → fs'.Takes q
  schema : t'.schema = t.schema
  matching : t'.Matching
  rows : t'.rowList = t.rowList.take (Step.kept steps t.numRows)
  stored : ∀ p, steps.getLast? = some (.trip p) → ∃ s : StoredTable, t' = s.read

theorem leaves_none (matching : t.Matching) : Leaves fs t [] fs t where
  takes _ other := other
  schema := rfl
  matching := matching
  rows := by rw [Step.kept, ← Table.row_list_length, List.take_length]
  stored _ last := by cases last

theorem leaves_head {fs' : FileSystem} {t' : Table} {rest : List Step} (n : Nat)
    (later : Leaves fs (t.head n) rest fs' t') : Leaves fs t (.head n :: rest) fs' t' where
  takes := later.takes
  schema := later.schema
  matching := later.matching
  rows := by
    rw [later.rows, Table.head_rows, Table.head_num_rows, kept_min, List.take_take, Step.kept]
    exact congrArg (fun k => t.rowList.take k) (by omega)
  stored p last := by
    cases rest with
    | nil => cases last
    | cons step rest => exact later.stored p (by rwa [List.getLast?_cons_cons] at last)

theorem leaves_trip {fs₁ fs' : FileSystem} {t' : Table} {s : StoredTable} {rest : List Step}
    (schema : s.schema = t.schema) (rows : s.rowList = t.rowList)
    (takes : ∀ q, fs.Takes q → fs₁.Takes q) (later : Leaves fs₁ s.read rest fs' t')
    (done : rest = [] → t' = s.read) : Leaves fs t (.trip p :: rest) fs' t' where
  takes q other := later.takes q (takes q other)
  schema := later.schema.trans schema
  matching := later.matching
  rows := by
    have count : s.read.numRows = t.numRows := by
      rw [← Table.row_list_length, StoredTable.read_rows, rows, Table.row_list_length]
    rw [later.rows, StoredTable.read_rows, rows, count, Step.kept]
  stored q last := by
    cases rest with
    | nil => exact ⟨s, done rfl⟩
    | cons step rest => exact later.stored q (by rwa [List.getLast?_cons_cons] at last)

theorem run_all_leaves (steps : List Step) (columns : t.schema ≠ []) (matching : t.Matching)
    (takes : ∀ q, .trip q ∈ steps → fs.Takes q) :
    ∃ fs' t', Step.runAll fs t steps = .ok (fs', t') ∧ Leaves fs t steps fs' t' := by
  induction steps generalizing fs t with
  | nil => exact ⟨fs, t, rfl, leaves_none matching⟩
  | cons step rest ih =>
    cases step with
    | head n =>
      have named : (t.head n).schema ≠ [] := columns
      obtain ⟨fs', t', ran, leaves⟩ := ih named (head_matching n matching)
        fun q member => takes q (List.mem_cons_of_mem _ member)
      exact ⟨fs', t', ran, leaves_head n leaves⟩
    | trip p =>
      obtain ⟨s, written, schema, rows⟩ := Table.write_matching columns matching
      obtain ⟨fs₁, ran, kept⟩ := trip_runs (takes p List.mem_cons_self) written
      have named : s.read.schema ≠ [] := fun none => columns (schema.symm.trans none)
      obtain ⟨fs', t', others, leaves⟩ := ih named (s.read_matching)
        fun q member => kept q (takes q (List.mem_cons_of_mem _ member))
      refine ⟨fs', t', ?_, leaves_trip schema rows kept leaves ?_⟩
      · rw [Step.runAll, ran]
        exact others
      · rintro rfl
        exact ((Prod.mk.inj (Except.ok.inj others)).2).symm

/-- Previews and trips in any order succeed and leave the first rows of a table, as many as the shortest
preview; after a trip they are cut afresh, and another trip brings back the very same table. -/
theorem rows_survive_steps (steps : List Step) (columns : t.schema ≠ []) (matching : t.Matching)
    (takes : ∀ q, .trip q ∈ steps → fs.Takes q) :
    ∃ fs' t', Step.runAll fs t steps = .ok (fs', t') ∧ t'.schema = t.schema ∧ t'.Matching ∧
      t'.rowList = t.rowList.take (Step.kept steps t.numRows) ∧
      ∀ p, steps.getLast? = some (.trip p) →
        t'.Recut ∧ ∀ q, fs.Takes q → ∃ fs'', Step.run fs' t' (.trip q) = .ok (fs'', t') := by
  obtain ⟨fs', t', ran, leaves⟩ := run_all_leaves steps columns matching takes
  refine ⟨fs', t', ran, leaves.schema, leaves.matching, leaves.rows, fun p last => ?_⟩
  obtain ⟨s, rfl⟩ := leaves.stored p last
  have named : s.schema ≠ [] := fun none => columns (leaves.schema.symm.trans none)
  refine ⟨StoredTable.read_recut s, fun q other => ?_⟩
  obtain ⟨fs'', again, _⟩ := trip_runs (leaves.takes q other) (write_read named)
  exact ⟨fs'', again⟩

theorem mixed_steps_leave_two_rows :
    let schema : Schema := [⟨"n", .int64, true⟩, ⟨"s", .text, false⟩]
    let t : Table := ⟨schema, [
      ⟨schema, 0, [⟨.int64, []⟩, ⟨.text, []⟩], by decide⟩,
      ⟨schema, 2, [⟨.int64, [some 1, none]⟩, ⟨.text, [some "a", some ""]⟩], by decide⟩,
      ⟨[⟨"m", .int64, true⟩, ⟨"s", .text, true⟩], 1, [⟨.int64, [some 3]⟩, ⟨.text, [some "c"]⟩],
        by decide⟩]⟩
    let p := Utf8.encodeString "t.parquet"
    t.schema ≠ [] ∧ t.Matching ∧ FileSystem.Takes (.empty []) p ∧
      ∃ fs' t', Step.runAll (.empty []) t [.head 3, .trip p, .head 2, .trip p] = .ok (fs', t') ∧
        t'.rowList = t.rowList.take 2 ∧ t'.Recut := by
  intro schema t p
  have columns : t.schema ≠ [] := List.cons_ne_nil _ _
  have matching : t.Matching := by
    simp only [Table.Matching, t, List.forall_mem_cons, List.not_mem_nil, false_implies, implies_true, and_true]
    refine ⟨.cons ⟨rfl, ?_⟩ (.cons ⟨rfl, ?_⟩ .nil), .cons ⟨rfl, ?_⟩ (.cons ⟨rfl, ?_⟩ .nil),
      .cons ⟨rfl, ?_⟩ (.cons ⟨rfl, ?_⟩ .nil)⟩
    all_goals decide
  have takes : FileSystem.Takes (.empty []) p := ⟨by decide +kernel, _, rfl⟩
  have everywhere : ∀ q, Step.trip q ∈ [Step.head 3, .trip p, .head 2, .trip p] → FileSystem.Takes (.empty []) q := by
    intro q member
    obtain rfl : q = p := by simpa using member
    exact takes
  obtain ⟨fs', t', ran, _, _, rows, after⟩ := rows_survive_steps _ columns matching everywhere
  exact ⟨columns, matching, takes, fs', t', ran, rows, (after p rfl).1⟩

end Steps

end TablePeek
