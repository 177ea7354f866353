import TablePeek.Proofs.AccessLog.Texts

set_option autoImplicit false

namespace TablePeek

namespace Generator

def skip (g : Generator) (draws : Nat) : Generator := ⟨g.state + .ofNat draws * increment⟩

variable (g : Generator)

theorem skip_none : g.skip 0 = g := by
  have none : UInt64.ofNat 0 * increment = 0 := UInt64.zero_mul
  rw [skip, none, UInt64.add_zero]

theorem skip_skip (m n : Nat) : (g.skip m).skip n = g.skip (m + n) := by
  simp only [skip, UInt64.ofNat_add, UInt64.add_mul, UInt64.add_assoc]

theorem step_skip : g.step = g.skip 1 := by
  rw [skip, UInt64.ofNat_one, UInt64.one_mul, step]

end Generator

namespace AccessRecord

def timed (time : Int) (r : AccessRecord) : AccessRecord := { r with timestamp := .ofInt time }

def later (millis : Int) (r : AccessRecord) : AccessRecord := r.timed (r.timestamp.toInt + millis)

end AccessRecord

namespace AccessLog

section Records

variable (index rows k : Nat) (g : Generator)

-- On every branch, two draws for the latency and one for everything else. So the state of the generator
-- at a record is known without the records before it.
theorem record_draws : (record index g).2 = g.skip 10 := by
  have drawn : (record index g).2 = g.step.step.step.step.step.step.step.step.step.step := rfl
  simp only [drawn, Generator.step_skip, Generator.skip_skip]

def time (index : Nat) (g : Generator) : Int := baseTime + index * 1500 + ((g.skip 9).below 1000).1

theorem record_timed : (record index g).1 = (record 0 g).1.timed (time index g) := by
  have ninth : g.skip 9 = g.step.step.step.step.step.step.step.step.step := by
    simp only [Generator.step_skip, Generator.skip_skip]
  rw [time, ninth]
  rfl

theorem record_later : (record (index + k) g).1 = (record index g).1.later (1500 * k) := by
  have sum : time (index + k) g = time index g + 1500 * k := by
    unfold time
    omega
  have held : Int64.ofInt (time index g + 1500 * k) = .ofInt ((Int64.ofInt (time index g)).toInt + 1500 * k) := by
    rw [Int64.ofInt_add, Int64.ofInt_add, Int64.ofInt_toInt]
  rw [record_timed (index + k), record_timed index, sum, AccessRecord.timed, held]
  rfl

theorem records_later : recordsFrom (index + k) rows g = (recordsFrom index rows g).map (.later (1500 * k)) := by
  induction rows generalizing index g with
  | zero => rfl
  | succ rows ih =>
    simp only [recordsFrom, List.map_cons, record_draws]
    rw [record_later, Nat.add_right_comm, ih]

theorem records_take : (recordsFrom index rows g).take k = recordsFrom index (min k rows) g := by
  induction k generalizing index rows g with
  | zero => rw [Nat.zero_min, List.take_zero, recordsFrom]
  | succ k ih =>
    cases rows with
    | zero => rfl
    | succ rows =>
      simp only [recordsFrom, Nat.succ_min_succ, List.take_succ_cons]
      rw [ih]

theorem records_drop : (recordsFrom index rows g).drop k = recordsFrom (index + k) (rows - k) (g.skip (10 * k)) := by
  induction k generalizing index rows g with
  | zero => rw [Nat.mul_zero, Generator.skip_none, List.drop_zero, Nat.add_zero, Nat.sub_zero]
  | succ k ih =>
    cases rows with
    | zero => rw [Nat.zero_sub, recordsFrom, recordsFrom, List.drop_nil]
    | succ rows =>
      have draws : 10 + 10 * k = 10 * (k + 1) := by omega
      simp only [recordsFrom, List.drop_succ_cons, record_draws]
      rw [ih, Generator.skip_skip, draws, Nat.add_right_comm, Nat.add_sub_add_right, Nat.add_assoc]

theorem record_at (rows : Nat) (seed : UInt64) (i : Nat) (inside : i < rows) :
    (records rows seed)[i]? = some (record i ((Generator.mk seed).skip (10 * i))).1 := by
  obtain ⟨more, count⟩ : ∃ more, rows - i = more + 1 := ⟨rows - i - 1, by omega⟩
  have behind : (records rows seed).drop i = recordsFrom i (more + 1) ((Generator.mk seed).skip (10 * i)) := by
    rw [records, records_drop, count, Nat.zero_add]
  rw [← List.head?_drop, behind]
  rfl

end Records

section Rows

def entries : List (AccessRecord → Value) :=
  [fun r => ⟨.int64, some r.accountId⟩, fun r => ⟨.text, some r.clientIp⟩, fun r => ⟨.text, some r.method⟩,
   fun r => ⟨.text, some r.path⟩, fun r => ⟨.int32, some r.statusCode⟩, fun r => ⟨.int64, some r.latencyMs⟩,
   fun r => ⟨.text, some r.userAgent⟩, fun r => ⟨.timestamp, some r.timestamp⟩]

def row (r : AccessRecord) : Row := entries.map fun entry => entry r

theorem column_values (rs : List AccessRecord) :
    (columns rs).map Column.values = entries.map fun entry => rs.map entry := by
  simp only [columns, entries, List.map_cons, List.map_nil, Column.values, List.map_map]
  rfl

theorem table_rows (rows : Nat) (seed : UInt64) : (table rows seed).rowList = (records rows seed).map row := by
  have length : (records rows seed).length = rows := records_length rows 0 ⟨seed⟩
  have made := rows_of_made .blank entries (records rows seed)
  rw [length] at made
  rw [table_row_list, column_values, made]
  rfl

def seedBehind (seed : UInt64) (rows : Nat) : UInt64 := seed + .ofNat (10 * rows * 0x9E3779B97F4A7C15)

theorem seed_behind (seed : UInt64) (k : Nat) : (⟨seedBehind seed k⟩ : Generator) = (Generator.mk seed).skip (10 * k) := by
  rw [seedBehind, UInt64.ofNat_mul]
  rfl

theorem records_behind (rows k : Nat) (seed : UInt64) :
    (records rows seed).drop k = (records (rows - k) (seedBehind seed k)).map (.later (1500 * k)) := by
  rw [records, records_drop, records_later, ← seed_behind]
  rfl

end Rows

end AccessLog

def Row.Delayed (millis : Int) (row later : Row) : Prop :=
  ∃ (front : Row) (t u : Int64), row = front ++ [⟨.timestamp, some t⟩] ∧ later = front ++ [⟨.timestamp, some u⟩] ∧
    (t.toInt + millis < 0x8000000000000000 → u.toInt = t.toInt + millis)

theorem later_delayed (r : AccessRecord) (millis : Nat) :
    Row.Delayed millis (AccessLog.row r) (AccessLog.row (r.later millis)) := by
  refine ⟨(AccessLog.row r).take 7, r.timestamp, (r.later millis).timestamp, rfl, rfl, fun held => ?_⟩
  have low := r.timestamp.le_toInt
  exact Int64.toInt_ofInt_of_le (by omega) held

namespace AccessLog

/-- Every row of a log can be computed without the rows before it: it is the first row of the log whose seed is that
many draws further on, at a later time. So a shorter log is the front of a longer one, and what follows the front
is a log again. -/
theorem rows_stand_alone (rows : Nat) (seed : UInt64) :
    (∀ i < rows, ∃ first row, (table 1 (seedBehind seed i)).rowList = [first] ∧
      (table rows seed).rowList[i]? = some row ∧ Row.Delayed (1500 * i) first row) ∧
    (∀ m ≤ rows, (table m seed).rowList = (table rows seed).rowList.take m) ∧
    ∀ k ≤ rows, List.Forall₂ (Row.Delayed (1500 * k)) (table (rows - k) (seedBehind seed k)).rowList
      ((table rows seed).rowList.drop k) := by
  have behind : ∀ k, (table rows seed).rowList.drop k =
      (records (rows - k) (seedBehind seed k)).map fun r => row (r.later (1500 * k)) := by
    intro k
    rw [table_rows, ← List.map_drop, records_behind, List.map_map]
    rfl
  have delayed : ∀ (k : Nat) (r : AccessRecord), Row.Delayed (1500 * k) (row r) (row (r.later (1500 * k))) := fun k r =>
    later_delayed r (1500 * k)
  refine ⟨fun i inside => ?_, fun m fewer => ?_, fun k _ => ?_⟩
  · have there := record_at rows seed i inside
    have later := record_later 0 i ((Generator.mk seed).skip (10 * i))
    rw [Nat.zero_add] at later
    rw [later, ← seed_behind] at there
    refine ⟨row (record 0 ⟨seedBehind seed i⟩).1, _, table_rows 1 _, ?_, delayed i _⟩
    rw [table_rows, List.getElem?_map, there, Option.map_some]
  · rw [table_rows, table_rows, ← List.map_take, records, records, records_take, Nat.min_eq_left fewer]
  · rw [table_rows, behind, List.forall₂_map_left_iff, List.forall₂_map_right_iff, List.forall₂_same]
    exact fun r _ => delayed k r

theorem third_row_alone :
    2 < 3 ∧ seedBehind 42 2 = 6653367501949350350 ∧
      ∃ first row, (table 1 (seedBehind 42 2)).rowList = [first] ∧ (table 3 42).rowList[2]? = some row ∧
        Row.Delayed 3000 first row := by
  have inside : 2 < 3 := by decide
  exact ⟨inside, by decide, (rows_stand_alone 3 42).1 2 inside⟩

end AccessLog

end TablePeek
