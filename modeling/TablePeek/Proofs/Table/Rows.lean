import Mathlib.Data.List.Forall2
import TablePeek.Table

set_option autoImplicit false

namespace TablePeek

structure Value where
  type : ColumnType
  entry : Option type.Entry
deriving DecidableEq

abbrev Row := List Value

namespace Value

def blank : Value := ⟨.text, none⟩

def text (v : Value) : String := (v.entry.map v.type.entryText).getD ""

end Value

def Column.values (c : Column) : List Value := c.entries.map (Value.mk c.type)

-- The entries of columns place by place, a blank where a column is too short.
def rowsOf {α : Type} (blank : α) (count : Nat) (columns : List (List α)) : List (List α) :=
  (List.range count).map fun i => columns.map fun c => c.getD i blank

def Batch.rowList (b : Batch) : List Row := rowsOf .blank b.rows (b.columns.map Column.values)

def Table.rowList (t : Table) : List Row := t.batches.flatMap Batch.rowList

namespace Column

theorem values_length (c : Column) : c.values.length = c.length := List.length_map _

theorem values_take (n : Nat) (c : Column) : (c.take n).values = c.values.take n := List.map_take

theorem values_drop (n : Nat) (c : Column) : (c.drop n).values = c.values.drop n := List.map_drop

theorem texts_of_values (c : Column) : c.texts = c.values.map Value.text := by
  rw [texts, values, List.map_map]
  rfl

theorem eq_of_values {c d : Column} (type : c.type = d.type) (values : c.values = d.values) : c = d := by
  obtain ⟨t, entries⟩ := c
  obtain ⟨_, others⟩ := d
  obtain rfl : t = _ := type
  have injective : Function.Injective (Value.mk t) := fun a b same => eq_of_heq (Value.mk.inj same).2
  exact congrArg (Column.mk t) (injective.list_map values)

theorem fit_lengths {schema : Schema} {rows : Nat} {columns : List Column}
    (fit : List.Forall₂ (Fits rows) schema columns) : ∀ c ∈ columns, c.length = rows := by
  induction fit with
  | nil => exact List.forall_mem_nil _
  | cons fits _ ih => exact List.forall_mem_cons.mpr ⟨fits.length, ih⟩

end Column

namespace Schema.Holds

variable {schema : Schema} {rows : Nat} {columns : List Column}

theorem paired (holds : schema.Holds rows columns) : List.Forall₂ (Column.Fits rows) schema columns :=
  List.forall₂_iff_zip.mpr ⟨holds.count.symm, fun member => holds.each _ member⟩

theorem lengths (holds : schema.Holds rows columns) : ∀ c ∈ columns, c.length = rows :=
  Column.fit_lengths holds.paired

end Schema.Holds

section RowsOf

variable {α β : Type} (blank : α)

theorem rows_of_length (count : Nat) (columns : List (List α)) : (rowsOf blank count columns).length = count := by
  rw [rowsOf, List.length_map, List.length_range]

theorem rows_of_none (columns : List (List α)) : rowsOf blank 0 columns = [] := rfl

theorem rows_of_succ (count : Nat) (columns : List (List α)) :
    rowsOf blank (count + 1) columns =
      columns.map (fun c => c.headD blank) :: rowsOf blank count (columns.map List.tail) := by
  rw [rowsOf, rowsOf, List.range_succ_eq_map, List.map_cons, List.map_map]
  refine congrArg₂ List.cons (List.map_congr_left fun c _ => ?_) (List.map_congr_left fun i _ => ?_)
  · cases c <;> rfl
  · rw [Function.comp_apply, List.map_map]
    apply List.map_congr_left
    intro c _
    cases c <;> simp

theorem rows_of_entry (count : Nat) (columns : List (List α)) :
    ∀ row ∈ rowsOf blank count columns, ∀ x ∈ row, x = blank ∨ ∃ c ∈ columns, x ∈ c := by
  intro row member x inRow
  obtain ⟨i, _, rfl⟩ := List.mem_map.mp member
  obtain ⟨c, inColumns, rfl⟩ := List.mem_map.mp inRow
  by_cases inside : i < c.length
  · rw [List.getD_eq_getElem?_getD, List.getElem?_eq_getElem inside]
    exact .inr ⟨c, inColumns, List.getElem_mem inside⟩
  · rw [List.getD_eq_getElem?_getD, List.getElem?_eq_none (Nat.le_of_not_lt inside)]
    exact .inl rfl

theorem rows_of_take (n count : Nat) (columns : List (List α)) :
    rowsOf blank (min n count) (columns.map (List.take n)) = (rowsOf blank count columns).take n := by
  rw [rowsOf, rowsOf, ← List.map_take, List.take_range]
  apply List.map_congr_left
  intro i inside
  have early : i < n := Nat.lt_of_lt_of_le (List.mem_range.mp inside) (Nat.min_le_left n count)
  rw [List.map_map]
  apply List.map_congr_left
  intro c _
  simp [List.getD_eq_getElem?_getD, early]

theorem rows_of_drop (n count : Nat) (columns : List (List α)) :
    rowsOf blank (count - n) (columns.map (List.drop n)) = (rowsOf blank count columns).drop n := by
  refine List.ext_getElem? fun i => ?_
  by_cases inside : n + i < count
  · have early : i < count - n := by omega
    simp [rowsOf, early, List.getD_eq_getElem?_getD, Function.comp_def]
  · have late : ¬ i < count - n := by omega
    simp [rowsOf, late]

theorem rows_of_split (n count : Nat) (columns : List (List α)) :
    rowsOf blank count columns =
      rowsOf blank (min n count) (columns.map (List.take n)) ++ rowsOf blank (count - n) (columns.map (List.drop n)) := by
  rw [rows_of_take, rows_of_drop, List.take_append_drop]

theorem rows_of_append (m n : Nat) (upper lower : List (List α)) (full : ∀ c ∈ upper, c.length = m)
    (paired : upper.length = lower.length) :
    rowsOf blank (m + n) (List.zipWith (· ++ ·) upper lower) = rowsOf blank m upper ++ rowsOf blank n lower := by
  have cut : (List.zipWith (· ++ ·) upper lower).map (List.take m) = upper ∧
      (List.zipWith (· ++ ·) upper lower).map (List.drop m) = lower := by
    induction upper generalizing lower with
    | nil => simpa using List.length_eq_zero_iff.mp paired.symm
    | cons c upper ih =>
      cases lower with
      | nil => cases paired
      | cons d lower =>
        have length := full c List.mem_cons_self
        obtain ⟨front, back⟩ := ih lower (fun e member => full e (List.mem_cons_of_mem c member)) (Nat.succ.inj paired)
        rw [List.zipWith_cons_cons, List.map_cons, List.map_cons, front, back, List.take_left' length,
          List.drop_left' length]
        exact ⟨rfl, rfl⟩
  rw [rows_of_split blank m, cut.1, cut.2, Nat.min_eq_left (Nat.le_add_right m n), Nat.add_sub_cancel_left]

theorem rows_of_map (f : α → β) (count : Nat) (columns : List (List α)) :
    rowsOf (f blank) count (columns.map (List.map f)) = (rowsOf blank count columns).map (List.map f) := by
  rw [rowsOf, rowsOf, List.map_map]
  apply List.map_congr_left
  intro i _
  rw [Function.comp_apply, List.map_map, List.map_map]
  apply List.map_congr_left
  intro c _
  simp [List.getD_eq_getElem?_getD]

theorem rows_of_made (entries : List (β → α)) (records : List β) :
    rowsOf blank records.length (entries.map fun entry => records.map entry) =
      records.map fun r => entries.map fun entry => entry r := by
  induction records with
  | nil => rfl
  | cons r records ih =>
    rw [List.length_cons, rows_of_succ, List.map_map, List.map_map]
    exact congrArg (List.cons _) ih

theorem rows_of_injective (count : Nat) {columns others : List (List α)} (paired : columns.length = others.length)
    (full : ∀ c ∈ columns, c.length = count) (otherFull : ∀ c ∈ others, c.length = count)
    (same : rowsOf blank count columns = rowsOf blank count others) : columns = others := by
  apply List.ext_getElem paired
  intro j inside otherInside
  have length := full _ (List.getElem_mem inside)
  have otherLength := otherFull _ (List.getElem_mem otherInside)
  apply List.ext_getElem (length.trans otherLength.symm)
  intro i early otherEarly
  have row := congrArg (fun rows => (rows[i]?.getD [])[j]?) same
  have place : i < count := length ▸ early
  simpa [rowsOf, place, inside, otherInside, early, otherEarly] using row

end RowsOf

namespace Table

theorem count_rows_length (batches : List Batch) : (batches.flatMap Batch.rowList).length = countRows batches := by
  induction batches with
  | nil => rfl
  | cons b rest ih => rw [List.flatMap_cons, List.length_append, ih, Batch.rowList, rows_of_length, countRows]

theorem row_list_length (t : Table) : t.rowList.length = t.numRows := count_rows_length t.batches

theorem batch_take_rows (n : Nat) (b : Batch) : (b.take n).rowList = b.rowList.take n := by
  rw [Batch.rowList, Batch.rowList, ← rows_of_take, Batch.take, List.map_map, List.map_map]
  exact congrArg _ (List.map_congr_left fun c _ => Column.values_take n c)

theorem take_rows_rows (n : Nat) (batches : List Batch) :
    (takeRows n batches).flatMap Batch.rowList = (batches.flatMap Batch.rowList).take n := by
  induction batches generalizing n with
  | nil => simp [takeRows]
  | cons b rest ih =>
    cases n with
    | zero => simp [takeRows]
    | succ n =>
      have left : n + 1 - min (n + 1) b.rows = n + 1 - b.rows := by omega
      have length : b.rowList.length = b.rows := rows_of_length _ _ _
      rw [takeRows, List.flatMap_cons, List.flatMap_cons, batch_take_rows, ih, List.take_append, left, length]

theorem take_rows_cut (n : Nat) (batches : List Batch) :
    ∀ b ∈ takeRows n batches, ∃ c ∈ batches, ∃ k, b = c.take k := by
  induction batches generalizing n with
  | nil => simp [takeRows]
  | cons c rest ih =>
    cases n with
    | zero => simp [takeRows]
    | succ n =>
      intro b member
      rcases List.mem_cons.mp member with rfl | later
      · exact ⟨c, List.mem_cons_self, n + 1, rfl⟩
      · obtain ⟨d, inRest, k, same⟩ := ih _ b later
        exact ⟨d, List.mem_cons_of_mem c inRest, k, same⟩

theorem head_rows (t : Table) (n : Nat) : (t.head n).rowList = t.rowList.take n := take_rows_rows n t.batches

theorem head_num_rows (t : Table) (n : Nat) : (t.head n).numRows = min n t.numRows := by
  rw [← row_list_length, head_rows, List.length_take, row_list_length]

end Table

end TablePeek
