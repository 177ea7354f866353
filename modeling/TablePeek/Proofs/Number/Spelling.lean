import Mathlib.Data.List.Induction
import TablePeek.Proofs.Number.Digits

set_option autoImplicit false

namespace TablePeek

namespace Digits

structure Tight (ds : List Char) : Prop where
  digits : allDigits ds = true
  leading : ds.head? = some '0' → ds = ['0']

theorem digit_range (c : Char) (digit : c.isDigit = true) : '0'.toNat ≤ c.toNat ∧ c.toNat < '0'.toNat + 10 := by
  simp only [Char.isDigit, Bool.and_eq_true, decide_eq_true_eq] at digit
  exact ⟨digit.1, Nat.lt_succ_of_le digit.2⟩

theorem digit_value_lt (c : Char) (digit : c.isDigit = true) : value c < 10 := by
  have range := digit_range c digit
  rw [value]
  omega

theorem char_of_value (c : Char) (digit : c.isDigit = true) (n : Nat) (last : n % 10 = value c) : char n = c := by
  have range := digit_range c digit
  have place : '0'.toNat + n % 10 = c.toNat := by
    rw [last, value]
    omega
  rw [char, place, Char.ofNat_toNat]

theorem to_nat_snoc (ds : List Char) (c : Char) : toNat (ds ++ [c]) = 10 * toNat ds + value c := by
  rw [toNat, fold_append]
  rfl

theorem all_digits_iff (ds : List Char) : allDigits ds = true ↔ ds ≠ [] ∧ ∀ c ∈ ds, c.isDigit = true := by
  simp only [allDigits, Bool.and_eq_true, Bool.not_eq_true', List.isEmpty_eq_false_iff, List.all_eq_true]

theorem value_zero (c : Char) (digit : c.isDigit = true) (zero : value c = 0) : c = '0' := by
  rw [← char_of_value c digit 0 zero.symm]
  rfl

theorem to_nat_positive (c : Char) (ds : List Char) (digit : c.isDigit = true) (nonzero : c ≠ '0') :
    0 < toNat (c :: ds) := by
  have first : value c ≠ 0 := fun zero => nonzero (value_zero c digit zero)
  have positive : 0 < 10 * 0 + value c := by omega
  exact Nat.lt_of_lt_of_le positive (le_fold _ ds)

theorem tight_front (ds : List Char) (c : Char) (nonempty : ds ≠ []) (tight : Tight (ds ++ [c])) : Tight ds := by
  have digits := ((all_digits_iff _).mp tight.digits).2
  refine ⟨(all_digits_iff ds).mpr ⟨nonempty, fun d member => digits d (List.mem_append_left _ member)⟩, ?_⟩
  intro zero
  have whole := tight.leading (by rw [List.head?_append, zero, Option.some_or])
  exact absurd (congrArg List.length whole) (by simp [nonempty])

theorem of_nat_of_digits (ds : List Char) (tight : Tight ds) : ofNat (toNat ds) = ds := by
  induction ds using List.reverseRecOn with
  | nil => cases tight.digits
  | append_singleton front c ih =>
    have digits := ((all_digits_iff _).mp tight.digits).2
    have digit := digits c (by simp)
    have small := digit_value_lt c digit
    have last : toNat (front ++ [c]) % 10 = value c := by rw [to_nat_snoc]; omega
    rw [ofNat, char_of_value c digit _ last]
    cases front with
    | nil =>
      rw [to_nat_snoc, if_pos (by simpa [toNat, fold] using small), List.nil_append]
    | cons d rest =>
      have nonzero : d ≠ '0' := by
        intro zero
        have := tight.leading (by simp [zero])
        simp at this
      have positive := to_nat_positive d rest (digits d (by simp)) nonzero
      have front : toNat (d :: rest ++ [c]) / 10 = toNat (d :: rest) := by rw [to_nat_snoc]; omega
      rw [if_neg (by rw [to_nat_snoc]; omega), front, ih (tight_front _ c (List.cons_ne_nil _ _) tight)]

theorem of_nat_tight (n : Nat) : Tight (ofNat n) := by
  refine ⟨of_nat_all_digits n, fun zero => ?_⟩
  obtain ⟨c, ds, written⟩ := List.exists_cons_of_ne_nil (of_nat_nonempty n)
  rw [written, List.head?_cons, Option.some.injEq] at zero
  rw [of_nat_leading_zero n ds (by rw [written, zero]), of_nat_zero]

def Whole (cs : List Char) : Prop :=
  Tight cs ∨ ∃ ds, cs = '-' :: ds ∧ Tight ds ∧ ds ≠ ['0']

theorem of_int_whole (i : Int) : Whole (ofInt i) := by
  rw [ofInt]
  by_cases negative : i < 0
  · rw [if_pos negative]
    refine .inr ⟨_, rfl, of_nat_tight _, fun zero => ?_⟩
    have := of_nat_leading_zero _ _ zero
    omega
  · rw [if_neg negative]
    exact .inl (of_nat_tight _)

end Digits

theorem read_int64_value {cs : List Char} {i : Int64} (read : readInt64? cs = some i) :
    i.toInt = if (Digits.splitSign cs).1 then -(Digits.toNat (Digits.splitSign cs).2 : Int)
      else Digits.toNat (Digits.splitSign cs).2 := by
  simp only [readInt64?, Option.ite_none_right_eq_some, Option.some.injEq] at read
  obtain ⟨_, range, rfl⟩ := read
  exact Int64.toInt_ofInt_of_le range.1 range.2

theorem written_back_iff {cs : List Char} {i : Int64} (read : readInt64? cs = some i) :
    Digits.ofInt i.toInt = cs ↔ Digits.Whole cs := by
  constructor
  · intro same
    exact same ▸ Digits.of_int_whole _
  · have value := read_int64_value read
    rintro (tight | ⟨ds, rfl, tight, nonzero⟩)
    · have digits := Digits.of_nat_of_digits cs tight
      have unsigned := Digits.split_sign_of_nat (Digits.toNat cs)
      rw [digits] at unsigned
      rw [unsigned] at value
      simp only [Bool.false_eq_true, if_false] at value
      rw [value, Digits.ofInt, if_neg (by omega), Int.natAbs_natCast, digits]
    · simp only [Digits.splitSign, if_true] at value
      have digits := Digits.of_nat_of_digits ds tight
      have positive : Digits.toNat ds ≠ 0 := by
        intro zero
        rw [zero, Digits.of_nat_zero] at digits
        exact nonzero digits.symm
      rw [value, Digits.ofInt, if_pos (by omega), Int.natAbs_neg, Int.natAbs_natCast, digits]

end TablePeek
