import TablePeek.Cell

set_option autoImplicit false

namespace TablePeek

namespace Digits

theorem char_digit (n : Nat) : (char n).isDigit = true := by
  have below : ∀ d < 10, (Char.ofNat ('0'.toNat + d)).isDigit = true := by decide
  exact below (n % 10) (Nat.mod_lt n (by decide))

theorem char_value (n : Nat) : value (char n) = n % 10 := by
  have below : ∀ d < 10, value (Char.ofNat ('0'.toNat + d)) = d := by decide
  exact below (n % 10) (Nat.mod_lt n (by decide))

theorem char_zero (n : Nat) (zero : char n = '0') : n % 10 = 0 := by
  rw [← char_value n, zero]
  rfl

theorem fold_append (start : Nat) (ds es : List Char) : fold start (ds ++ es) = fold (fold start ds) es :=
  List.foldl_append

theorem le_fold (start : Nat) (ds : List Char) : start ≤ fold start ds := by
  induction ds generalizing start with
  | nil => exact Nat.le_refl _
  | cons c ds ih =>
    have more : start ≤ 10 * start + value c := by omega
    exact Nat.le_trans more (ih _)

section Below

variable {limit : Nat}

theorem fold_below_past (start : Nat) (ds : List Char) (past : limit ≤ start) : foldBelow limit start ds = start := by
  induction ds with
  | nil => rfl
  | cons c ds ih =>
    rw [foldBelow, List.foldl_cons, if_neg (Nat.not_lt_of_le past)]
    exact ih

theorem fold_below_cons {start : Nat} (c : Char) (ds : List Char) (below : start < limit) :
    foldBelow limit start (c :: ds) = foldBelow limit (10 * start + value c) ds := by
  rw [foldBelow, List.foldl_cons, if_pos below]
  rfl

theorem fold_below_all (start : Nat) (ds : List Char) (small : fold start ds < 10 * limit) :
    foldBelow limit start ds = fold start ds := by
  induction ds generalizing start with
  | nil => rfl
  | cons c ds ih =>
    have step : fold start (c :: ds) = fold (10 * start + value c) ds := rfl
    have most := le_fold (10 * start + value c) ds
    rw [fold_below_cons c ds (by omega), step]
    exact ih _ small

theorem limit_le_fold_below (start : Nat) (ds : List Char) (large : limit ≤ fold start ds) :
    limit ≤ foldBelow limit start ds := by
  induction ds generalizing start with
  | nil => exact large
  | cons c ds ih =>
    by_cases below : start < limit
    · rw [fold_below_cons c ds below]
      exact ih _ large
    · rw [fold_below_past start _ (Nat.le_of_not_lt below)]
      exact Nat.le_of_not_lt below

-- The first digits count: all of them, or just as many as reach the limit.
structure Counts (limit start : Nat) (ds : List Char) (k : Nat) : Prop where
  inside : k ≤ ds.length
  below : ∀ j < k, fold start (ds.take j) < limit
  reached : k < ds.length → limit ≤ fold start (ds.take k)

theorem Counts.value {start k : Nat} {ds : List Char} (counts : Counts limit start ds k) :
    foldBelow limit start ds = fold start (ds.take k) := by
  induction ds generalizing start k with
  | nil => rw [List.take_nil]; rfl
  | cons c ds ih =>
    cases k with
    | zero => exact fold_below_past start _ (counts.reached (Nat.succ_pos _))
    | succ k =>
      have first : start < limit := counts.below 0 (Nat.succ_pos k)
      rw [fold_below_cons c ds first]
      exact ih ⟨Nat.le_of_succ_le_succ counts.inside, fun j less => counts.below (j + 1) (Nat.succ_lt_succ less),
        fun more => counts.reached (Nat.succ_lt_succ more)⟩

theorem counts_some (limit start : Nat) (ds : List Char) : ∃ k, Counts limit start ds k := by
  induction ds generalizing start with
  | nil => exact ⟨0, Nat.le_refl 0, fun _ none => absurd none (Nat.not_lt_zero _), fun none => absurd none (Nat.lt_irrefl 0)⟩
  | cons c ds ih =>
    by_cases below : start < limit
    · obtain ⟨k, inside, before, reached⟩ := ih (10 * start + value c)
      refine ⟨k + 1, Nat.succ_le_succ inside, fun j less => ?_, fun more => reached (Nat.lt_of_succ_lt_succ more)⟩
      cases j with
      | zero => exact below
      | succ j => exact before j (Nat.lt_of_succ_lt_succ less)
    · exact ⟨0, Nat.zero_le _, fun _ none => absurd none (Nat.not_lt_zero _), fun _ => Nat.le_of_not_lt below⟩

end Below

theorem take_digits (ds rest : List Char) (digits : ∀ c ∈ ds, c.isDigit = true)
    (stop : ∀ c ∈ rest.head?, c.isDigit = false) :
    (ds ++ rest).takeWhile Char.isDigit = ds ∧ (ds ++ rest).dropWhile Char.isDigit = rest := by
  induction ds with
  | nil =>
    cases rest with
    | nil => exact ⟨rfl, rfl⟩
    | cons c rest =>
      have notDigit : c.isDigit = false := stop c rfl
      simp [notDigit]
  | cons d ds ih =>
    have digit : d.isDigit = true := digits d List.mem_cons_self
    have tail := ih fun c member => digits c (List.mem_cons_of_mem _ member)
    simp [digit, tail]

theorem of_nat_value (n : Nat) : toNat (ofNat n) = n := by
  rw [ofNat]
  split
  · rename_i small
    simp only [toNat, fold, List.foldl_cons, List.foldl_nil, char_value]
    omega
  · have front := of_nat_value (n / 10)
    unfold toNat at front ⊢
    rw [fold_append, front]
    simp only [fold, List.foldl_cons, List.foldl_nil, char_value]
    omega
termination_by n
decreasing_by omega

theorem of_nat_digits (n : Nat) : ∀ c ∈ ofNat n, c.isDigit = true := by
  intro c member
  rw [ofNat] at member
  split at member
  · rw [List.mem_singleton.mp member]
    exact char_digit n
  · rcases List.mem_append.mp member with front | last
    · exact of_nat_digits (n / 10) c front
    · rw [List.mem_singleton.mp last]
      exact char_digit n
termination_by n
decreasing_by omega

theorem of_nat_nonempty (n : Nat) : ofNat n ≠ [] := by
  rw [ofNat]
  split <;> simp

theorem of_nat_leading_zero (n : Nat) (rest : List Char) (leading : ofNat n = '0' :: rest) : n = 0 := by
  rw [ofNat] at leading
  split at leading
  · have := char_zero n (List.cons.inj leading).1
    omega
  · obtain ⟨first, ds, front⟩ := List.exists_cons_of_ne_nil (of_nat_nonempty (n / 10))
    rw [front, List.cons_append, List.cons.injEq] at leading
    have := of_nat_leading_zero (n / 10) ds (by rw [front, leading.1])
    omega
termination_by n
decreasing_by omega

theorem of_nat_zero : ofNat 0 = ['0'] := by
  rw [ofNat]
  rfl

theorem of_nat_length (n k : Nat) (below : n < 10 ^ (k + 1)) : (ofNat n).length ≤ k + 1 := by
  induction k generalizing n with
  | zero =>
    rw [ofNat, if_pos (show n < 10 from below)]
    exact Nat.le_refl 1
  | succ k ih =>
    rw [ofNat]
    split
    · exact Nat.succ_le_succ (Nat.zero_le _)
    · have front := ih (n / 10) (Nat.div_lt_of_lt_mul (Nat.mul_comm 10 _ ▸ below))
      rw [List.length_append, List.length_singleton]
      exact Nat.succ_le_succ front

theorem of_nat_all_digits (n : Nat) : allDigits (ofNat n) = true := by
  simp only [allDigits, Bool.and_eq_true, Bool.not_eq_true', List.isEmpty_eq_false_iff, List.all_eq_true]
  exact ⟨of_nat_nonempty n, of_nat_digits n⟩

theorem digit_not_sign (c : Char) (digit : c.isDigit = true) : c ≠ '-' ∧ c ≠ '+' := by
  constructor <;> (intro same; rw [same] at digit; exact absurd digit (by decide))

theorem split_sign_bare {cs : List Char} (bare : ∀ c ∈ cs.head?, c ≠ '-' ∧ c ≠ '+') : splitSign cs = (false, cs) := by
  cases cs with
  | nil => rfl
  | cons c rest =>
    have other := bare c rfl
    rw [splitSign]
    · exact fun _ same => other.1 (List.cons.inj same).1
    · exact fun _ same => other.2 (List.cons.inj same).1

theorem split_sign_unsigned {cs : List Char} (head : ∀ c ∈ cs.head?, c.isDigit = true) :
    splitSign cs = (false, cs) :=
  split_sign_bare fun c first => digit_not_sign c (head c first)

theorem split_sign_of_nat (n : Nat) : splitSign (ofNat n) = (false, ofNat n) :=
  split_sign_unsigned fun c head => of_nat_digits n c (List.mem_of_mem_head? head)

theorem split_sign_of_int (i : Int) : splitSign (ofInt i) = (decide (i < 0), ofNat i.natAbs) := by
  rw [ofInt]
  by_cases negative : i < 0
  · rw [if_pos negative]
    simp [splitSign, negative]
  · rw [if_neg negative, split_sign_of_nat]
    simp [negative]

end Digits

theorem read_written_int64 (i : Int64) : readInt64? (Digits.ofInt i.toInt) = some i := by
  have low := Int64.le_toInt i
  have high := Int64.toInt_lt i
  simp only [readInt64?, Digits.split_sign_of_int, Digits.of_nat_all_digits, Digits.of_nat_value, if_true]
  have exact : (if decide (i.toInt < 0) = true then -(i.toInt.natAbs : Int) else i.toInt.natAbs) = i.toInt := by
    by_cases negative : i.toInt < 0
    · simp only [negative, decide_true, if_true]
      omega
    · simp only [negative, decide_false, Bool.false_eq_true, if_false]
      omega
  rw [exact, if_pos (by omega), Int64.ofInt_toInt]

namespace Cell

variable {s : String} {i : Int64} {x : Binary64}

theorem number_not_word (number : readInt64? s.toList ≠ none ∨ Binary64.read? s.toList ≠ none) :
    s ≠ "" ∧ s ≠ "true" ∧ s ≠ "false" := by
  refine ⟨?_, ?_, ?_⟩ <;> (rintro rfl; revert number; decide)

theorem guess_of_int64 (read : readInt64? s.toList = some i) : guess s = .integer i := by
  obtain ⟨filled, yes, no⟩ := number_not_word (.inl (read ▸ Option.some_ne_none i))
  rw [guess, if_neg filled, if_neg yes, if_neg no, read]

theorem guess_integer_text (i : Int64) : guess (toText (.integer i)) = .integer i := by
  apply guess_of_int64
  rw [toText, String.toList_ofList, read_written_int64]

theorem guess_of_binary64 (wide : readInt64? s.toList = none) (read : Binary64.read? s.toList = some x) :
    guess s = .float x := by
  obtain ⟨filled, yes, no⟩ := number_not_word (.inr (read ▸ Option.some_ne_none x))
  rw [guess, if_neg filled, if_neg yes, if_neg no, wide, read]

end Cell

end TablePeek
