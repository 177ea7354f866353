import TablePeek.Proofs.Number.Rounding
import TablePeek.Proofs.NumberReaders

set_option autoImplicit false

namespace TablePeek

def FewBits (i : Int) : Prop := ∃ s k, s < 2 ^ 53 ∧ i.natAbs = s * 2 ^ k

namespace Magnitude

variable {n : Nat} {m : Magnitude}

theorem value_eq_natural : m.value = n ↔ m.steps = stepsInOne * n := by
  rw [value, div_eq_iff steps_in_one_cast.ne', mul_comm (n : ℚ), ← Nat.cast_mul, Nat.cast_inj]

theorem few_bits_of_steps (exact : m.steps = stepsInOne * n) : ∃ s k, s < 2 ^ 53 ∧ n = s * 2 ^ k := by
  have small : m.significand < 2 ^ 53 := m.significand_lt
  rw [steps] at exact
  generalize m.significand = s at small exact
  rcases Nat.le_total 1074 m.shift with more | fewer
  · obtain ⟨k, shift⟩ := Nat.exists_eq_add_of_le more
    rw [shift, ← Binary64.steps_in_one_shifted, Nat.mul_left_comm] at exact
    exact ⟨s, k, small, (Nat.eq_of_mul_eq_mul_left steps_in_one_positive exact).symm⟩
  · obtain ⟨k, unit⟩ := Nat.exists_eq_add_of_le fewer
    have one : stepsInOne = 2 ^ m.shift * 2 ^ k := by rw [stepsInOne, unit, Nat.pow_add]
    rw [one, Nat.mul_comm (2 ^ m.shift), Nat.mul_right_comm] at exact
    have all : s = 2 ^ k * n := Nat.eq_of_mul_eq_mul_right (Nat.two_pow_pos m.shift) exact
    have below : n ≤ s := all ▸ Nat.le_mul_of_pos_left n (Nat.two_pow_pos k)
    exact ⟨n, 0, Nat.lt_of_le_of_lt below small, (Nat.mul_one n).symm⟩

theorem value_nonneg (m : Magnitude) : 0 ≤ m.value := div_nonneg m.steps.cast_nonneg steps_in_one_cast.le

theorem nearest_in_order {q r : ℚ} {o : Magnitude} (nearest : m.Nearest q) (other : o.Nearest r) (less : q < r) :
    m.value ≤ o.value := by
  by_contra turned
  have above := above_middle (nearest.least o) (not_le.mp turned)
  have below := below_middle (other.least m) (not_le.mp turned)
  linarith

end Magnitude

open Magnitude

namespace Binary64

variable {i j : Int}

theorem of_int_rational (i : Int) (small : i.natAbs < 2 ^ 64) : ∃ m : Magnitude, m.Nearest i.natAbs ∧
    (ofInt i).rational? = some (if i < 0 then -m.value else m.value) := by
  obtain ⟨m, same, nearest⟩ := of_int_nearest i small
  refine ⟨m, nearest, ?_⟩
  rw [same, rational?]
  simp only [decide_eq_true_eq]

theorem of_int_exact (i : Int) (small : i.natAbs < 2 ^ 64) : (ofInt i).rational? = some (i : ℚ) ↔ FewBits i := by
  obtain ⟨m, found, same⟩ := of_int_found i small
  have value : (ofInt i).rational? = some (i : ℚ) ↔ m.value = i.natAbs := by
    rw [same, rational?, Option.some.injEq]
    rcases lt_or_ge i 0 with negative | natural
    · have opposite : (i : ℚ) = -(i.natAbs : ℚ) := by
        rw [Nat.cast_natAbs, abs_of_neg negative]
        push_cast
        ring
      rw [decide_eq_true negative, if_pos rfl, opposite, neg_inj]
    · have equal : (i : ℚ) = i.natAbs := by rw [Nat.cast_natAbs, abs_of_nonneg natural]
      rw [decide_eq_false (Int.not_lt.mpr natural), if_neg (by decide), equal]
  rw [value, value_eq_natural]
  constructor
  · exact few_bits_of_steps
  · rintro ⟨s, k, few, whole⟩
    rw [whole] at found ⊢
    exact bits_exact k few.le found

theorem of_int_in_order (small : i.natAbs < 2 ^ 64) (small' : j.natAbs < 2 ^ 64) (less : i < j) :
    ∃ p q, (ofInt i).rational? = some p ∧ (ofInt j).rational? = some q ∧ p ≤ q := by
  obtain ⟨m, nearest, value⟩ := of_int_rational i small
  obtain ⟨o, nearest', value'⟩ := of_int_rational j small'
  refine ⟨_, _, value, value', ?_⟩
  have m_nonneg := m.value_nonneg
  have o_nonneg := o.value_nonneg
  rcases lt_or_ge j 0 with below | above
  · have order : (j.natAbs : ℚ) < i.natAbs := by
      have : j.natAbs < i.natAbs := by omega
      exact_mod_cast this
    have := nearest_in_order nearest' nearest order
    rw [if_pos (Int.lt_trans less below), if_pos below]
    linarith
  · rw [if_neg (Int.not_lt.mpr above)]
    rcases lt_or_ge i 0 with negative | natural
    · rw [if_pos negative]
      linarith
    · have order : (i.natAbs : ℚ) < j.natAbs := by
        have : i.natAbs < j.natAbs := by omega
        exact_mod_cast this
      rw [if_neg (Int.not_lt.mpr natural)]
      exact nearest_in_order nearest nearest' order

end Binary64

end TablePeek
