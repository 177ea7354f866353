import TablePeek.AccessLog
import TablePeek.Proofs.Grid.Reading
import TablePeek.Proofs.Number.Spelling

set_option autoImplicit false

namespace TablePeek

abbrev Visible (ch : Char) : Prop := 0x20 < ch.toNat ∧ ch.toNat < 0x7F

structure Word (limit : Nat) (cs : List Char) : Prop where
  visible : ∀ ch ∈ cs, Visible ch
  short : cs.length ≤ limit

instance (limit : Nat) (cs : List Char) : Decidable (Word limit cs) :=
  decidable_of_iff (cs.all (fun ch => decide (Visible ch)) = true ∧ cs.length ≤ limit)
    ⟨fun ⟨visible, short⟩ => ⟨fun ch member => of_decide_eq_true (List.all_eq_true.mp visible ch member), short⟩,
      fun word => ⟨List.all_eq_true.mpr fun ch member => decide_eq_true (word.visible ch member), word.short⟩⟩

section Words

variable {m n limit : Nat} {cs ds : List Char} {ch : Char}

theorem word_none : Word 0 [] := ⟨by simp, Nat.le_refl 0⟩

theorem word_longer (word : Word m cs) (longer : m ≤ limit) : Word limit cs :=
  ⟨word.visible, Nat.le_trans word.short longer⟩

theorem word_cons (ch : Char) (visible : Visible ch) (word : Word m cs) : Word (m + 1) (ch :: cs) where
  visible := List.forall_mem_cons.mpr ⟨visible, word.visible⟩
  short := Nat.succ_le_succ word.short

theorem word_append (first : Word m cs) (second : Word n ds) : Word (m + n) (cs ++ ds) where
  visible := List.forall_mem_append.mpr ⟨first.visible, second.visible⟩
  short := by
    have front := first.short
    have back := second.short
    rw [List.length_append]
    omega

theorem Word.printable (word : Word limit cs) : ∀ ch ∈ cs, Width.Printable ch := fun ch member =>
  ⟨Nat.le_of_lt (word.visible ch member).1, (word.visible ch member).2⟩

theorem word_legible {s : String} (word : Word limit s.toList) : Grid.Legible limit s where
  whole member := absurd (word.visible '\n' member) (by decide)
  ended last := absurd (word.visible ' ' (List.mem_of_getLast? last)) (by decide)
  fits := Nat.le_trans (Nat.le_of_eq (Width.of_text_printable s.toList word.printable)) word.short

theorem digit_visible (digit : ch.isDigit = true) : Visible ch := by
  have range := Digits.digit_range ch digit
  have zero : '0'.toNat = 48 := rfl
  omega

theorem word_of_nat (n k : Nat) (below : n < 10 ^ (k + 1)) : Word (k + 1) (Digits.ofNat n) :=
  ⟨fun ch member => digit_visible (Digits.of_nat_digits n ch member), Digits.of_nat_length n k below⟩

theorem word_of_int (i : Int) (k : Nat) (below : i.natAbs < 10 ^ (k + 1)) : Word (k + 2) (Digits.ofInt i) := by
  have digits := word_of_nat i.natAbs k below
  rw [Digits.ofInt]
  split
  · exact word_cons '-' (by decide) digits
  · exact word_longer digits (Nat.le_succ _)

theorem word_padded (width n k : Nat) (below : n < 10 ^ (k + 1)) : Word (width + (k + 1)) (Digits.padded width n) := by
  refine word_append ⟨fun ch member => ?_, ?_⟩ (word_of_nat n k below)
  · rw [List.eq_of_mem_replicate member]
    decide
  · rw [List.length_replicate]
    exact Nat.sub_le _ _

theorem word_int64 (i : Int64) : Word 100 (Digits.ofInt i.toInt) := by
  have low := i.le_toInt
  have high := i.toInt_lt
  exact word_longer (word_of_int i.toInt 18 (show _ < 10000000000000000000 by omega)) (by decide)

theorem word_int32 (i : Int32) : Word 100 (Digits.ofInt i.toInt) := by
  have low := i.le_toInt
  have high := i.toInt_lt
  exact word_longer (word_of_int i.toInt 9 (show _ < 10000000000 by omega)) (by decide)

end Words

namespace Instant

theorem word_date (d : Date) (year : d.year.natAbs < 10000000000000) (month : d.month < 10000) (day : d.day < 1000000) :
    Word 40 d.toText := by
  have years : Word 18 (Date.yearText d.year) := by
    rw [Date.yearText]
    split
    · exact word_longer (word_padded 4 d.year.toNat 12 (show _ < 10000000000000 by omega)) (by decide)
    · refine word_cons _ ?_ (word_padded 4 _ 12 year)
      split <;> decide
  have months := word_cons '-' (by decide) (word_padded 2 d.month 3 month)
  have days := word_cons '-' (by decide) (word_padded 2 d.day 5 day)
  exact word_longer (word_append (word_append years months) days) (by decide)

-- Bounds with room to spare.
theorem of_day_range (days : Int) (near : days.natAbs < 1000000000000) :
    (Date.ofDay days).year.natAbs < 10000000000000 ∧ (Date.ofDay days).month < 10000 ∧
      (Date.ofDay days).day < 1000000 := by
  have inPeriod : ((days + 719468) % Date.period).toNat < 146097 := by
    have below := Int.emod_lt_of_pos (days + 719468) (show 0 < Date.period by decide)
    have least := Int.emod_nonneg (days + 719468) (show Date.period ≠ 0 by decide)
    simp only [Date.period] at below least ⊢
    omega
  have periods : (days + 719468) / Date.period * 400 ≤ 1000000000000 ∧ -1000000000000 ≤ (days + 719468) / Date.period * 400 := by
    simp only [Date.period]
    omega
  rw [Date.ofDay]
  simp only
  generalize ((days + 719468) % Date.period).toNat = d at inPeriod
  generalize (days + 719468) / Date.period * 400 = first at periods
  have years : Date.yearOfPeriod d ≤ 2 * d := by
    rw [Date.yearOfPeriod]
    omega
  generalize Date.yearOfPeriod d = y at years
  generalize Date.daysBefore y = before
  refine ⟨?_, ?_, ?_⟩
  · split <;> omega
  · split <;> omega
  · omega

theorem word_instant (millis : Int64) : Word 100 (toText millis.toInt) := by
  have low := millis.le_toInt
  have high := millis.toInt_lt
  have near : (millis.toInt / millisPerDay).natAbs < 1000000000000 := by
    simp only [millisPerDay]
    omega
  obtain ⟨year, month, day⟩ := of_day_range _ near
  have inDay : (millis.toInt % millisPerDay).toNat < 86400000 := by
    simp only [millisPerDay]
    omega
  unfold toText
  simp only
  generalize (millis.toInt % millisPerDay).toNat = t at inDay
  have date := word_date _ year month day
  have hours := word_cons 'T' (by decide) (word_padded 2 (t / 3600000) 1 (show _ < 100 by omega))
  have minutes := word_cons ':' (by decide) (word_padded 2 (t / 60000 % 60) 1 (show _ < 100 by omega))
  have seconds := word_cons ':' (by decide) (word_padded 2 (t / 1000 % 60) 1 (show _ < 100 by omega))
  have fraction : Word 7 (if t % 1000 = 0 then [] else '.' :: Digits.padded 3 (t % 1000)) := by
    split
    · exact word_longer word_none (Nat.zero_le _)
    · exact word_cons '.' (by decide) (word_padded 3 (t % 1000) 2 (show _ < 1000 by omega))
  exact word_longer (word_append (word_append (word_append (word_append date hours) minutes) seconds) fraction) (by decide)

end Instant

namespace ColumnType

theorem cast_error_legible (i : Int64) : Grid.Legible 200 (castError i.toInt) := by
  have written : (castError i.toInt).toList = "ERROR: Cast error: Failed to convert ".toList ++
      (Digits.ofInt i.toInt ++ " to datetime for Timestamp(Millisecond, None)".toList) := String.toList_ofList
  have each : ∀ {cs : List Char}, cs.all (fun ch => decide (Width.Printable ch)) = true → ∀ ch ∈ cs, Width.Printable ch :=
    fun all ch member => of_decide_eq_true (List.all_eq_true.mp all ch member)
  have digits := word_int64 i
  have printable := List.forall_mem_append.mpr
    ⟨each (show "ERROR: Cast error: Failed to convert ".toList.all _ = true by decide), List.forall_mem_append.mpr
      ⟨digits.printable, each (show " to datetime for Timestamp(Millisecond, None)".toList.all _ = true by decide)⟩⟩
  refine ⟨fun member => ?_, ?_, ?_⟩
  · rw [written] at member
    exact absurd (printable '\n' member) (by decide)
  · have last : " to datetime for Timestamp(Millisecond, None)".toList.getLast? = some ')' := by decide
    rw [written, ← List.append_assoc, List.getLast?_append, last]
    exact fun same => absurd (Option.some.inj same) (by decide)
  · have short := digits.short
    rw [written, Width.of_text_printable _ printable, List.length_append, List.length_append]
    change 37 + ((Digits.ofInt i.toInt).length + 45) ≤ 200
    omega

theorem instant_legible (i : Int64) : Grid.Legible 200 (instantText i.toInt) := by
  have word := Instant.word_instant i
  rw [← String.toList_ofList (l := Instant.toText i.toInt)] at word
  rw [instantText]
  split
  · exact Grid.legible_wider (word_legible word) (by decide)
  · exact cast_error_legible i

end ColumnType

namespace Generator

theorem below_lt (g : Generator) (n : UInt64) (positive : 0 < n.toNat) : (g.below n).1 < n.toNat := by
  change (g.next.1 % n).toNat < n.toNat
  rw [UInt64.toNat_mod]
  exact Nat.mod_lt _ positive

theorem pick_member {α : Type} (g : Generator) (default : α) (items : List α) (nonempty : items ≠ [])
    (few : items.length < 0x10000000000000000) : (g.pick default items).1 ∈ items := by
  have count : (UInt64.ofNat items.length).toNat = items.length := UInt64.toNat_ofNat_of_lt' few
  have inside := below_lt g (UInt64.ofNat items.length) (by rw [count]; exact List.length_pos_iff.mpr nonempty)
  rw [count] at inside
  change items.getD (g.below (UInt64.ofNat items.length)).1 default ∈ items
  rw [List.getD_eq_getElem?_getD, List.getElem?_eq_getElem inside]
  exact List.getElem_mem inside

end Generator

namespace AccessLog

theorem word_address (a b : Nat) (first : a < 10) (second : b < 1000) : Word 20 (address a b).toList := by
  have text : (address a b).toList = "10.0.".toList ++ Digits.ofNat a ++ '.' :: Digits.ofNat b := String.toList_ofList
  have front : Word 5 "10.0.".toList := by decide
  have back := word_cons '.' (by decide) (word_of_nat b 2 second)
  exact text ▸ word_longer (word_append (word_append front (word_of_nat a 0 first)) back) (by decide)

theorem record_client (index : Nat) (g : Generator) :
    ∃ a b, a < 4 ∧ b < 254 ∧ (record index g).1.clientIp = address a (1 + b) := by
  have drawn : ∃ g₁ g₂ : Generator, (record index g).1.clientIp = address (g₁.below 4).1 (1 + (g₂.below 254).1) :=
    ⟨_, _, rfl⟩
  obtain ⟨g₁, g₂, same⟩ := drawn
  exact ⟨_, _, Generator.below_lt g₁ 4 (by decide), Generator.below_lt g₂ 254 (by decide), same⟩

theorem record_address (index : Nat) (g : Generator) : Word 20 (record index g).1.clientIp.toList := by
  obtain ⟨a, b, third, fourth, same⟩ := record_client index g
  rw [same]
  exact word_address _ _ (by omega) (by omega)

theorem record_picked (index : Nat) (g : Generator) :
    (record index g).1.method ∈ methods ∧ (record index g).1.path ∈ paths ∧ (record index g).1.userAgent ∈ userAgents :=
  ⟨Generator.pick_member _ "" methods (List.cons_ne_nil _ _) (by decide),
    Generator.pick_member _ "" paths (List.cons_ne_nil _ _) (by decide),
    Generator.pick_member _ "" userAgents (List.cons_ne_nil _ _) (by decide)⟩

def Drawn (r : AccessRecord) : Prop := ∃ index g, r = (record index g).1

theorem records_drawn (rows index : Nat) (g : Generator) : ∀ r ∈ recordsFrom index rows g, Drawn r := by
  induction rows generalizing index g with
  | zero => exact fun r member => absurd member List.not_mem_nil
  | succ rows ih =>
    intro r member
    rcases List.mem_cons.mp member with rfl | later
    · exact ⟨index, g, rfl⟩
    · exact ih _ _ r later

theorem records_length (rows index : Nat) (g : Generator) : (recordsFrom index rows g).length = rows := by
  induction rows generalizing index g with
  | zero => rfl
  | succ rows ih => exact congrArg Nat.succ (ih _ _)

section Columns

variable {rs : List AccessRecord}

theorem drawn_texts {r : AccessRecord} (drawn : Drawn r) :
    Word 100 r.clientIp.toList ∧ Word 100 r.method.toList ∧ Word 100 r.path.toList ∧ Word 100 r.userAgent.toList := by
  obtain ⟨index, g, rfl⟩ := drawn
  have listed : ∀ s ∈ methods ++ paths ++ userAgents, Word 100 s.toList := by decide
  simp only [List.forall_mem_append] at listed
  obtain ⟨method, path, agent⟩ := record_picked index g
  exact ⟨word_longer (record_address index g) (by decide), listed.1.1 _ method, listed.1.2 _ path, listed.2 _ agent⟩

theorem column_legible (drawn : ∀ r ∈ rs, Drawn r) : ∀ c ∈ columns rs, ∀ v ∈ c.values, Grid.Legible 200 v.text := by
  have each : ∀ (t : ColumnType) (entry : AccessRecord → t.Entry),
      (∀ r, Drawn r → Grid.Legible 200 (t.entryText (entry r))) →
      ∀ v ∈ Column.values ⟨t, rs.map fun r => some (entry r)⟩, Grid.Legible 200 v.text := by
    intro t entry legible v member
    obtain ⟨e, inColumn, rfl⟩ := List.mem_map.mp member
    obtain ⟨r, inLog, rfl⟩ := List.mem_map.mp inColumn
    exact legible r (drawn r inLog)
  have word : ∀ {s : String}, Word 100 s.toList → Grid.Legible 200 s := fun word =>
    Grid.legible_wider (word_legible word) (by decide)
  have written : ∀ {cs : List Char}, Word 100 cs → Grid.Legible 200 (String.ofList cs) := fun short =>
    word (by rwa [String.toList_ofList])
  simp only [columns, List.forall_mem_cons, List.not_mem_nil, false_implies, implies_true, and_true]
  exact ⟨each .int64 _ fun r _ => written (word_int64 r.accountId), each .text _ fun r was => word (drawn_texts was).1,
    each .text _ fun r was => word (drawn_texts was).2.1, each .text _ fun r was => word (drawn_texts was).2.2.1,
    each .int32 _ fun r _ => written (word_int32 r.statusCode), each .int64 _ fun r _ => written (word_int64 r.latencyMs),
    each .text _ fun r was => word (drawn_texts was).2.2.2,
    each .timestamp _ fun r _ => ColumnType.instant_legible r.timestamp⟩

end Columns

section Shown

variable (rows : Nat) (seed : UInt64)

theorem table_row_list : (table rows seed).rowList =
    rowsOf .blank rows ((columns (records rows seed)).map Column.values) := by
  have length : (records rows seed).length = rows := records_length rows 0 ⟨seed⟩
  rw [Table.rowList, table, List.flatMap_singleton]
  exact congrArg (rowsOf Value.blank · _) length

theorem table_num_rows : (table rows seed).numRows = rows := by
  rw [← Table.row_list_length, table_row_list, rows_of_length]

theorem table_legible (mode : Mode) : (table rows seed).Legible mode 65535 := by
  intro cells shown s inCells
  rcases List.mem_cons.mp shown with rfl | below
  · have names : ∀ name ∈ schema.map Field.name, Grid.Legible 65535 name := by decide
    exact names s inCells
  · obtain ⟨row, inView, rfl⟩ := List.mem_map.mp below
    obtain ⟨v, inRow, rfl⟩ := List.mem_map.mp inCells
    have listed := List.mem_of_mem_take inView
    rw [table_row_list] at listed
    rcases rows_of_entry .blank rows _ row listed v inRow with rfl | ⟨values, inTable, inColumn⟩
    · exact word_legible (word_longer word_none (Nat.zero_le _))
    · obtain ⟨c, column, rfl⟩ := List.mem_map.mp inTable
      exact Grid.legible_wider (column_legible (records_drawn rows 0 ⟨seed⟩) c column v inColumn) (by decide)

end Shown

end AccessLog

end TablePeek
