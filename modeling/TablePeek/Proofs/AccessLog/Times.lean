import TablePeek.Proofs.AccessLog.Draws
import TablePeek.Proofs.AccessLog.Samples
import TablePeek.Proofs.Instant

set_option autoImplicit false

namespace TablePeek.AccessLog

structure Sensible (index : Nat) (r : AccessRecord) : Prop where
  account : 1 ≤ r.accountId.toInt ∧ r.accountId.toInt ≤ 5
  client : ∃ a b, a ≤ 3 ∧ 1 ≤ b ∧ b ≤ 254 ∧ r.clientIp = address a b
  method : r.method ∈ methods
  path : r.path ∈ paths
  status : r.statusCode ∈ statusCodes
  latency : 20 ≤ r.latencyMs.toInt ∧ r.latencyMs.toInt ≤ 199 ∨ 820 ≤ r.latencyMs.toInt ∧ r.latencyMs.toInt ≤ 999
  agent : r.userAgent ∈ userAgents
  time : baseTime + 1500 * index ≤ r.timestamp.toInt ∧ r.timestamp.toInt ≤ baseTime + 1500 * index + 999

section Records

variable (index : Nat) (g : Generator)

theorem latency_range : 20 ≤ (latency g).1 ∧ (latency g).1 ≤ 199 ∨ 820 ≤ (latency g).1 ∧ (latency g).1 ≤ 999 := by
  have base : (g.below 180).1 < 180 := Generator.below_lt g 180 (by decide)
  have value : (latency g).1 =
      if ((g.below 180).2.below 20).1 = 0 then 20 + (g.below 180).1 + 800 else 20 + (g.below 180).1 := rfl
  rw [value]
  split <;> omega

theorem time_range : baseTime + 1500 * index ≤ time index g ∧ time index g ≤ baseTime + 1500 * index + 999 := by
  have offset : ((g.skip 9).below 1000).1 < 1000 := Generator.below_lt _ 1000 (by decide)
  rw [time]
  omega

theorem record_sensible (held : time index g < 0x8000000000000000) : Sensible index (record index g).1 := by
  have range := time_range index g
  have timestamp : (record index g).1.timestamp.toInt = time index g := by
    rw [record_timed]
    exact Int64.toInt_ofInt_of_le (by unfold baseTime at range; omega) held
  obtain ⟨method, path, agent⟩ := record_picked index g
  have account : ∃ n, n < 5 ∧ (record index g).1.accountId = Int64.ofNat (1 + n) :=
    ⟨_, Generator.below_lt g 5 (by decide), rfl⟩
  have latent : ∃ g₁, (record index g).1.latencyMs = Int64.ofNat (latency g₁).1 := ⟨_, rfl⟩
  obtain ⟨n, few, account⟩ := account
  obtain ⟨a, b, third, fourth, client⟩ := record_client index g
  obtain ⟨g₁, latent⟩ := latent
  have millis := latency_range g₁
  refine ⟨?_, ⟨a, 1 + b, by omega, by omega, by omega, client⟩, method, path, ?_, ?_, agent, ?_⟩
  · rw [account, Int64.toInt_ofNat_of_lt (by omega)]
    omega
  · exact Generator.pick_member _ 0 statusCodes (List.cons_ne_nil _ _) (by decide)
  · rw [latent, Int64.toInt_ofNat_of_lt (by omega)]
    omega
  · rw [timestamp]
    exact range

end Records

section Early

variable {rows : Nat} {seed : UInt64}

-- The number of records that a log has before the year 10000.
def longest : Nat := 167764780800

def beforeYear (year : Int) (millis : Int) : Prop := (Date.onDay (millis / Instant.millisPerDay).toNat).year < year

theorem year_ten_thousand : (Date.onDay 2932897).year = 10000 := by
  rw [← Date.of_day_counts]
  decide +kernel

theorem last_day : (Date.onDay 2932896).year = 9999 := by
  rw [← Date.of_day_counts]
  decide +kernel

theorem rows_before (early : ∀ r ∈ records rows seed, beforeYear 10000 r.timestamp.toInt) : rows ≤ longest := by
  by_contra more
  have there := record_at rows seed longest (Nat.lt_of_not_le more)
  generalize (Generator.mk seed).skip (10 * longest) = g at there
  have range := time_range longest g
  have base : baseTime + 1500 * (longest : Int) = 2932897 * Instant.millisPerDay := by decide
  rw [base] at range
  simp only [Instant.millisPerDay] at range
  have day := early _ (List.mem_of_getElem? there)
  have sensible := (record_sensible longest g (by omega)).time
  rw [base] at sensible
  simp only [Instant.millisPerDay, beforeYear] at sensible day
  have number : ((record longest g).1.timestamp.toInt / 86400000).toNat = 2932897 := by omega
  rw [number, year_ten_thousand] at day
  exact absurd day (by decide)

theorem sensible_before (few : rows ≤ longest) {i : Nat} {r : AccessRecord} (there : (records rows seed)[i]? = some r) :
    Sensible i r := by
  obtain ⟨inside, _⟩ := List.getElem?_eq_some_iff.mp there
  rw [records, records_length] at inside
  obtain rfl := Option.some.inj ((record_at rows seed i inside).symm.trans there)
  have range := time_range i ((Generator.mk seed).skip (10 * i))
  rw [longest] at few
  rw [baseTime] at range
  exact record_sensible i _ (by omega)

theorem early_before (few : rows ≤ longest) : ∀ r ∈ records rows seed, beforeYear 10000 r.timestamp.toInt := by
  intro r member
  obtain ⟨i, there⟩ := List.getElem?_of_mem member
  obtain ⟨inside, _⟩ := List.getElem?_eq_some_iff.mp there
  rw [records, records_length] at inside
  have time := (sensible_before few there).time
  have day : (r.timestamp.toInt / Instant.millisPerDay).toNat ≤ 2932896 := by
    rw [longest] at few
    simp only [baseTime, Instant.millisPerDay] at time ⊢
    omega
  have year := Date.on_day_year day
  rw [last_day] at year
  exact Int.lt_add_one_of_le year

end Early

section Shown

variable {rows : Nat} {seed : UInt64}

def stamp (r : AccessRecord) : String := Value.text ⟨.timestamp, some r.timestamp⟩

def line (ws : List Nat) (r : AccessRecord) : Grid.Line := Grid.rowLine ws (((row r).take 7).map Value.text ++ [stamp r])

theorem texts_in_view (mode : Mode) (ws : List Nat) :
    ((table rows seed).textsInView mode).map (Grid.rowLine ws) =
      ((records rows seed).take (mode.limit rows)).map (line ws) := by
  rw [Table.textsInView, table_num_rows, table_rows, ← List.map_take, List.map_map, List.map_map]
  rfl

theorem stamp_denotes {r : AccessRecord} (since : 0 ≤ r.timestamp.toInt) (early : beforeYear 10000 r.timestamp.toInt) :
    Instant.Denotes (stamp r).toList r.timestamp.toInt := by
  have text : (stamp r).toList = Instant.toText r.timestamp.toInt :=
    (congrArg String.toList (if_pos (Instant.early_dated since early))).trans String.toList_ofList
  rw [text]
  exact Instant.to_text_denotes since early

theorem no_nulls : ∀ c ∈ columns (records rows seed), none ∉ c.entries := by
  have each : ∀ (t : ColumnType) (entry : AccessRecord → t.Entry),
      none ∉ Column.entries ⟨t, (records rows seed).map fun r => some (entry r)⟩ := by
    intro t entry listed
    obtain ⟨r, _, same⟩ := List.mem_map.mp listed
    cases same
  simp only [columns, List.forall_mem_cons, List.not_mem_nil, false_implies, implies_true, and_true]
  exact ⟨each .int64 _, each .text _, each .text _, each .text _, each .int32 _, each .int64 _, each .text _,
    each .timestamp _⟩

/-- A log whose times are all before the year 10000 is one batch of as many rows as asked for, with columns as its
schema says and no nulls. All its records are sensible ones and their times increase. The lines printed for them end
in texts that denote these times and no others, and the bytes of these texts increase too. -/
theorem logs_in_order (early : ∀ r ∈ records rows seed, beforeYear 10000 r.timestamp.toInt) :
    let t := table rows seed
    let log := records rows seed
    (∃ b, t.batches = [b] ∧ b.rows = rows ∧ b.Fits t.schema ∧ ∀ c ∈ b.columns, none ∉ c.entries) ∧
    t.rowList = log.map row ∧ log.length = rows ∧ (∀ i r, log[i]? = some r → Sensible i r) ∧
    log.Pairwise (fun r s => r.timestamp.toInt < s.timestamp.toInt) ∧
    (∀ r ∈ log, ∀ millis, Instant.Denotes (stamp r).toList millis ↔ millis = r.timestamp.toInt) ∧
    log.Pairwise (fun r s => Utf8.encodeString (stamp r) < Utf8.encodeString (stamp s)) ∧
    ∀ mode, ∃ ws, ws.length = 8 ∧ List.splitOn '\n' (Document.toText t mode) =
      Document.divider :: Grid.border ws :: Grid.rowLine ws t.columnNames :: Grid.border ws ::
        ((log.take (mode.limit rows)).map (line ws) ++ [Grid.border ws, [], Document.divider, []]) := by
  have few := rows_before early
  have sensible : ∀ i r, (records rows seed)[i]? = some r → Sensible i r := fun i r there => sensible_before few there
  have denotes : ∀ r ∈ records rows seed, Instant.Denotes (stamp r).toList r.timestamp.toInt := by
    intro r member
    obtain ⟨i, there⟩ := List.getElem?_of_mem member
    have time := (sensible i r there).time
    rw [baseTime] at time
    exact stamp_denotes (by omega) (early r member)
  have ordered : (records rows seed).Pairwise fun r s => r.timestamp.toInt < s.timestamp.toInt := by
    rw [List.pairwise_iff_getElem]
    intro i j inside otherInside less
    have time := (sensible i _ (List.getElem?_eq_getElem inside)).time
    have otherTime := (sensible j _ (List.getElem?_eq_getElem otherInside)).time
    omega
  refine ⟨⟨_, rfl, records_length rows 0 ⟨seed⟩, ?_, no_nulls⟩, table_rows rows seed, records_length rows 0 ⟨seed⟩, sensible,
    ordered, fun r member millis => ⟨fun denoted => ?_, fun same => same ▸ denotes r member⟩, ?_, fun mode => ?_⟩
  · exact (access_log_well_formed rows seed).batches _ List.mem_cons_self
  · exact Instant.denoted_unique denoted (denotes r member)
  · exact ordered.imp_of_mem fun first second less =>
      Instant.denoted_bytes_before (denotes _ first) (denotes _ second) less
  · obtain ⟨ws, eight, lines⟩ := log_document rows seed mode
    rw [texts_in_view] at lines
    exact ⟨ws, eight, lines⟩

theorem million_records_ordered :
    (∀ r ∈ records 1000000 42, beforeYear 10000 r.timestamp.toInt) ∧
      (records 1000000 42).Pairwise fun r s => Utf8.encodeString (stamp r) < Utf8.encodeString (stamp s) := by
  have early : ∀ r ∈ records 1000000 42, beforeYear 10000 r.timestamp.toInt := early_before (by decide)
  obtain ⟨_, _, _, _, _, _, ordered, _⟩ := logs_in_order early
  exact ⟨early, ordered⟩

end Shown

end TablePeek.AccessLog
