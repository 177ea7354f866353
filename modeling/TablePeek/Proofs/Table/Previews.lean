import TablePeek.Proofs.Table.Rows

set_option autoImplicit false

namespace TablePeek

namespace Table

structure ShortestFront (n : Nat) (batches : List Batch) (size : Nat) : Prop where
  inside : size ≤ batches.length
  enough : n ≤ countRows (batches.take size) ∨ size = batches.length
  fewest : ∀ fewer < size, countRows (batches.take fewer) < n

structure PreviewOf (t : Table) (n : Nat) (preview : Table) : Prop where
  schema : preview.schema = t.schema
  front : ShortestFront n t.batches preview.batches.length
  unchanged : ∀ i, i + 1 < preview.batches.length → preview.batches[i]? = t.batches[i]?
  -- The last batch has what the batches before it leave of the rows.
  last : ∀ i, i + 1 = preview.batches.length →
    preview.batches[i]? = t.batches[i]?.map (Batch.take (n - countRows (t.batches.take i)))
  short : t.numRows < n → preview.batches = t.batches
  none : n = 0 → preview.batches = []
  total : preview.numRows = min n t.numRows
  rows : preview.rowList = t.rowList.take n

section TakeRows

variable (n m : Nat) (b : Batch) (rest batches : List Batch)

theorem take_rows_none : takeRows 0 batches = [] := by cases batches <;> rfl

theorem left_over : n + 1 - min (n + 1) b.rows = n + 1 - b.rows := by omega

theorem take_rows_cons : takeRows (n + 1) (b :: rest) = b.take (n + 1) :: takeRows (n + 1 - b.rows) rest := by
  rw [takeRows, left_over]

theorem take_rows_at (i : Nat) (inside : i < (takeRows n batches).length) :
    (takeRows n batches)[i]? = batches[i]?.map (Batch.take (n - countRows (batches.take i))) := by
  induction batches generalizing n i with
  | nil => cases inside
  | cons b rest ih =>
    cases n with
    | zero => cases inside
    | succ n =>
      rw [take_rows_cons] at inside ⊢
      cases i with
      | zero => rfl
      | succ i =>
        rw [List.getElem?_cons_succ, List.getElem?_cons_succ, List.take_succ_cons, countRows,
          ih _ i (Nat.lt_of_succ_lt_succ inside), Nat.sub_add_eq]

theorem take_rows_front : ShortestFront n batches (takeRows n batches).length := by
  induction batches generalizing n with
  | nil => exact ⟨Nat.le_refl 0, .inr rfl, fun fewer less => absurd less (Nat.not_lt_zero fewer)⟩
  | cons b rest ih =>
    cases n with
    | zero => exact ⟨Nat.zero_le _, .inl (Nat.zero_le _), fun fewer less => absurd less (Nat.not_lt_zero fewer)⟩
    | succ n =>
      obtain ⟨inside, enough, fewest⟩ := ih (n + 1 - b.rows)
      rw [take_rows_cons, List.length_cons]
      refine ⟨Nat.succ_le_succ inside, ?_, ?_⟩
      · rw [List.take_succ_cons, countRows, List.length_cons]
        exact enough.imp (fun reached => by omega) (fun all => by omega)
      · intro fewer less
        cases fewer with
        | zero => exact Nat.succ_pos n
        | succ fewer =>
          have before := fewest fewer (Nat.lt_of_succ_lt_succ less)
          rw [List.take_succ_cons, countRows]
          omega

theorem count_rows_next (i : Nat) (there : batches[i]? = some b) :
    countRows (batches.take (i + 1)) = countRows (batches.take i) + b.rows := by
  induction batches generalizing i with
  | nil => cases there
  | cons first rest ih =>
    cases i with
    | zero =>
      obtain rfl := Option.some.inj there
      simp [countRows]
    | succ i =>
      rw [List.take_succ_cons, countRows, ih i there, List.take_succ_cons, countRows, Nat.add_assoc]

theorem count_rows_take_le (size : Nat) : countRows (batches.take size) ≤ countRows batches := by
  induction batches generalizing size with
  | nil =>
    have none : ([] : List Batch).take size = [] := List.take_nil
    exact Nat.le_of_eq (congrArg countRows none)
  | cons b rest ih =>
    cases size with
    | zero => exact Nat.zero_le _
    | succ size => exact Nat.add_le_add_left (ih size) b.rows

end TakeRows

theorem take_all {n : Nat} {b : Batch} (room : b.rows ≤ n) : b.take n = b := by
  apply Batch.ext
  · rfl
  · exact Nat.min_eq_right room
  · change b.columns.map (Column.take n) = b.columns
    conv => rhs; rw [← List.map_id b.columns]
    apply List.map_congr_left
    intro c member
    have all : c.entries.take n = c.entries := List.take_of_length_le (le_of_eq_of_le (b.holds.lengths c member) room)
    rw [Column.take, all, id]

theorem batch_take_take (n m : Nat) (b : Batch) : (b.take m).take n = b.take (min n m) := by
  apply Batch.ext
  · rfl
  · exact (Nat.min_assoc n m b.rows).symm
  · change (b.columns.map (Column.take m)).map (Column.take n) = b.columns.map (Column.take (min n m))
    rw [List.map_map]
    apply List.map_congr_left
    intro c _
    rw [Function.comp_apply, Column.take, Column.take, Column.take, List.take_take]

theorem take_rows_twice (n m : Nat) (batches : List Batch) :
    takeRows n (takeRows m batches) = takeRows (min n m) batches := by
  induction batches generalizing n m with
  | nil => rfl
  | cons b rest ih =>
    cases m with
    | zero => rw [take_rows_none, Nat.min_zero, take_rows_none, takeRows]
    | succ m =>
      cases n with
      | zero => rw [Nat.zero_min, take_rows_none, take_rows_none]
      | succ n =>
        have both : min (n + 1) (m + 1) = min n m + 1 := Nat.succ_min_succ n m
        have left : min (n + 1 - (b.take (m + 1)).rows) (m + 1 - b.rows) = min n m + 1 - b.rows := by
          change min (n + 1 - min (m + 1) b.rows) (m + 1 - b.rows) = min n m + 1 - b.rows
          omega
        rw [take_rows_cons, take_rows_cons, batch_take_take, ih, left, both, take_rows_cons]

variable (t : Table)

theorem head_head (n m : Nat) : (t.head m).head n = t.head (min n m) :=
  congrArg (Table.mk t.schema) (take_rows_twice n m t.batches)

theorem batch_kept {n i : Nat} (room : countRows (t.batches.take (i + 1)) ≤ n)
    (inside : i < (t.head n).batches.length) : (t.head n).batches[i]? = t.batches[i]? := by
  have there := List.getElem?_eq_getElem (Nat.lt_of_lt_of_le inside (take_rows_front n t.batches).inside)
  have next := count_rows_next _ t.batches i there
  change (takeRows n t.batches)[i]? = t.batches[i]?
  rw [take_rows_at n t.batches i inside, there, Option.map_some, take_all (by omega)]

/-- A preview takes the shortest front of the batches that has its rows, and cuts nothing but the last of them to
fit. A preview of a preview is a preview of the table, of the fewer rows, so that taking one twice or two in either
order is the same. -/
theorem preview_batches (n m : Nat) : PreviewOf t n (t.head n) ∧
    (t.head m).head n = t.head (min n m) ∧ (t.head n).head n = t.head n ∧
    (t.head m).head n = (t.head n).head m := by
  have front : ShortestFront n t.batches (t.head n).batches.length := take_rows_front n t.batches
  refine ⟨⟨rfl, front, ?_, ?_, ?_, ?_, head_num_rows t n, head_rows t n⟩, head_head t n m, ?_, ?_⟩
  · exact fun i more => t.batch_kept (Nat.le_of_lt (front.fewest (i + 1) more)) (Nat.lt_of_succ_lt more)
  · exact fun i final => take_rows_at n t.batches i (final ▸ Nat.lt_succ_self i)
  · intro short
    have before : ∀ size, countRows (t.batches.take size) < n := fun size =>
      Nat.lt_of_le_of_lt (count_rows_take_le t.batches size) short
    have all := front.enough.resolve_left (Nat.not_le_of_lt (before _))
    refine List.ext_getElem? fun i => ?_
    by_cases inside : i < (t.head n).batches.length
    · exact t.batch_kept (Nat.le_of_lt (before (i + 1))) inside
    · rw [List.getElem?_eq_none (Nat.le_of_not_lt inside), List.getElem?_eq_none (all ▸ Nat.le_of_not_lt inside)]
  · rintro rfl
    exact take_rows_none t.batches
  · rw [head_head, Nat.min_self]
  · rw [head_head, head_head, Nat.min_comm]

theorem uneven_batches_preview :
    let a : Batch := ⟨[⟨"a", .int64, false⟩], 2, [⟨.int64, [some 1, some 2]⟩], by decide⟩
    let b : Batch := ⟨[⟨"b", .text, false⟩], 0, [⟨.text, []⟩], by decide⟩
    let c : Batch := ⟨[⟨"a", .int64, true⟩], 3, [⟨.int64, [none, some 4, some 5]⟩], by decide⟩
    let t : Table := ⟨a.schema, [a, b, c, b]⟩
    (t.head 4).batches = [a, b, c.take 2] ∧ PreviewOf t 4 (t.head 4) ∧
      (t.head 3).head 4 = t.head 3 := by
  intro a b c t
  obtain ⟨preview, again, _⟩ := preview_batches t 4 3
  exact ⟨rfl, preview, again⟩

end Table

end TablePeek
