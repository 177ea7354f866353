import Mathlib.Data.Rat.Floor
import TablePeek.Proofs.Number.Rounding

set_option autoImplicit false

namespace TablePeek

namespace Decimal

def value (d : Decimal) : ℚ := d.coefficient * 10 ^ d.exponent

theorem trim_value (k : Nat) (e : Int) : (trim k e).value = k * 10 ^ e := by
  rw [trim]
  split
  · rename_i ten
    have whole : (k : ℚ) = 10 * (k / 10 : Nat) := by
      exact_mod_cast (Nat.mul_div_cancel' (Nat.dvd_of_mod_eq_zero ten.2)).symm
    rw [trim_value (k / 10) (e + 1), zpow_add_one₀ (by norm_num), whole]
    ring
  · rfl
termination_by k
decreasing_by omega

end Decimal

namespace Magnitude

variable {m : Magnitude} {tie : Tie}

section Held

theorem scaled_cast (e : Int) (k : Nat) :
    ((Spacing.ofExponent e).scaled k : ℚ) = 4 * (k * 10 ^ e * stepsInOne) * (Spacing.ofExponent e).den := by
  have whole : (10 ^ (-e).toNat : ℚ) ≠ 0 := by positivity
  rw [← power_ratio, Spacing.scaled, Spacing.ofExponent, quarters]
  generalize stepsInOne = unit
  push_cast
  field_simp

theorem interval_low (nonzero : m.significand ≠ 0) : (m.interval.low : ℚ) = 4 * m.low := by
  have least := steps_positive nonzero
  have below : m.interval.low = 4 * m.steps - if m.IsPower then 2 ^ m.shift else 2 * 2 ^ m.shift := rfl
  rw [below, low]
  split
  · rw [Nat.cast_sub (by omega)]
    push_cast
    ring
  · rw [Nat.cast_sub (by omega)]
    push_cast
    ring

theorem interval_high : (m.interval.high : ℚ) = 4 * m.high := by
  rw [interval, high]
  push_cast
  ring

theorem scaled_le_iff (e : Int) (k : Nat) {a : Nat} {x : ℚ} (quarters : (a : ℚ) = 4 * x) :
    (a * (Spacing.ofExponent e).den ≤ (Spacing.ofExponent e).scaled k ↔ x ≤ k * 10 ^ e * stepsInOne) ∧
    ((Spacing.ofExponent e).scaled k ≤ a * (Spacing.ofExponent e).den ↔ k * 10 ^ e * stepsInOne ≤ x) := by
  have den : (0 : ℚ) < (Spacing.ofExponent e).den := Nat.cast_pos.mpr (spacing_den_positive e)
  have four : (0 : ℚ) < 4 := by norm_num
  rw [← Nat.cast_le (α := ℚ), ← Nat.cast_le (α := ℚ), Nat.cast_mul, scaled_cast, quarters,
    mul_le_mul_iff_left₀ den, mul_le_mul_iff_left₀ den, mul_le_mul_iff_right₀ four, mul_le_mul_iff_right₀ four]
  exact ⟨Iff.rfl, Iff.rfl⟩

theorem holds_iff (nonzero : m.significand ≠ 0) (e : Int) (k : Nat) :
    m.interval.holds (.ofExponent e) k = true ↔ m.Around (k * 10 ^ e * stepsInOne) := by
  obtain ⟨fromLow, toLow⟩ := scaled_le_iff e k (interval_low nonzero)
  obtain ⟨fromHigh, toHigh⟩ := scaled_le_iff e k (interval_high (m := m))
  have closed : m.interval.closed = decide (m.significand % 2 = 0) := rfl
  rw [Interval.holds, closed]
  by_cases even : m.significand % 2 = 0
  · simp only [even, decide_true, if_true, Bool.and_eq_true, decide_eq_true_eq, fromLow, toHigh]
    exact ⟨fun inside => ⟨inside.1, inside.2, fun _ => even⟩, fun around => ⟨around.low, around.high⟩⟩
  · simp only [even, decide_false, Bool.false_eq_true, if_false, Bool.and_eq_true, decide_eq_true_eq, ← not_le, toLow,
      fromHigh]
    constructor
    · rintro ⟨above, below⟩
      refine ⟨(not_le.mp above).le, (not_le.mp below).le, fun on => ?_⟩
      exact on.elim (fun same => absurd same.le above) (fun same => absurd same.ge below)
    · intro around
      refine ⟨fun least => even (around.even (.inl ?_)), fun most => even (around.even (.inr ?_))⟩
      · exact le_antisymm least around.low
      · exact le_antisymm around.high most

end Held

section Cut

theorem point_value (nonzero : m.significand ≠ 0) : 10 ^ (m.point - 1) * stepsInOne ≤ (m.steps : ℚ) := by
  have reached := point_reached nonzero 1 (by decide)
  have one : m.point - (1 : Nat) = m.point - 1 := rfl
  rw [one] at reached
  have den : (0 : ℚ) < 10 ^ (-(m.point - 1)).toNat := by positivity
  have cast : (4 * stepsInOne * 10 ^ (m.point - 1).toNat : ℚ) ≤ 4 * m.steps * 10 ^ (-(m.point - 1)).toNat := by
    exact_mod_cast reached
  rw [← power_ratio, div_mul_eq_mul_div, div_le_iff₀ den]
  linarith

theorem low_apart (m : Magnitude) : (m.steps : ℚ) ≤ 10 ^ 17 * (m.steps - m.low) := by
  have unit : (0 : ℚ) < 2 ^ m.shift := by positivity
  have few : (m.significand : ℚ) ≤ 2 ^ 53 := by exact_mod_cast m.significand_lt.le
  have small := mul_le_mul_of_nonneg_right few unit.le
  rw [low, sub_sub_cancel]
  rw [← steps_cast] at small
  split
  · linarith
  · linarith

theorem cut_around (e : Int) (fine : 10 ^ e * stepsInOne * 10 ^ 17 ≤ (m.steps : ℚ)) :
    m.Around ((m.interval.middle * 10 ^ (-e).toNat / (quarters * 10 ^ e.toNat) : Nat) * 10 ^ e * stepsInOne) := by
  have gap : (0 : ℚ) < 2 ^ m.shift := by positivity
  have unit : (0 : ℚ) < 10 ^ e * stepsInOne := mul_pos (zpow_pos (by norm_num) e) steps_in_one_cast
  have quotient : ((m.interval.middle * 10 ^ (-e).toNat : Nat) : ℚ) / (quarters * 10 ^ e.toNat : Nat) *
      (10 ^ e * stepsInOne) = m.steps := by
    have up : (10 : ℚ) ^ e.toNat ≠ 0 := by positivity
    have down : (10 : ℚ) ^ (-e).toNat ≠ 0 := by positivity
    have scale := steps_in_one_cast.ne'
    rw [← power_ratio, quarters, interval]
    generalize stepsInOne = unit at scale ⊢
    push_cast
    field_simp
  rw [mul_assoc, ← Rat.natFloor_natCast_div_natCast]
  generalize ((m.interval.middle * 10 ^ (-e).toNat : Nat) : ℚ) / (quarters * 10 ^ e.toNat : Nat) = x at quotient ⊢
  generalize (10 ^ e * stepsInOne : ℚ) = u at unit fine quotient ⊢
  have nonneg : 0 ≤ x := nonneg_of_mul_nonneg_left (quotient ▸ m.steps.cast_nonneg) unit
  have below := mul_le_mul_of_nonneg_right (Nat.floor_le nonneg) unit.le
  have above := mul_lt_mul_of_pos_right (Nat.lt_floor_add_one x) unit
  have apart := m.low_apart
  have high : m.high = m.steps + 2 ^ m.shift / 2 := rfl
  refine ⟨by linarith, by linarith, fun on => ?_⟩
  rcases on with same | same <;> linarith

theorem shortest_from_around (nonzero : m.significand ≠ 0) (left : Nat) (e : Int)
    (fine : 10 ^ (e - left) * stepsInOne * 10 ^ 17 ≤ (m.steps : ℚ)) :
    m.Around ((shortestFrom tie m.interval e left).value * stepsInOne) := by
  induction left generalizing e with
  | zero =>
    rw [Int.natCast_zero, Int.sub_zero] at fine
    rw [shortestFrom, Decimal.trim_value]
    exact cut_around e fine
  | succ left ih =>
    rw [shortestFrom]
    cases picked : m.interval.pick? (.ofExponent e) tie with
    | some k =>
      simp only [Decimal.trim_value]
      exact (holds_iff nonzero e k).mp (pick_holds picked)
    | none =>
      have rest : e - (left + 1 : Nat) = e - 1 - left := by omega
      rw [rest] at fine
      exact ih (e - 1) fine

end Cut

theorem shortest_around (tie : Tie) (m : Magnitude) : m.Around ((m.shortest tie).value * stepsInOne) := by
  rw [shortest]
  by_cases zero : m.significand = 0
  · have shift : m.shift = 0 := m.normal.resolve_right (by omega)
    have ordinary : ¬ m.IsPower := fun power => power.2 shift
    rw [if_pos zero, Decimal.value, Nat.cast_zero, zero_mul, zero_mul]
    refine ⟨?_, ?_, fun _ => by rw [zero]⟩
    · rw [low, if_neg ordinary, steps_cast, zero, shift]
      norm_num
    · rw [high, steps_cast, zero, shift]
      norm_num
  · rw [if_neg zero]
    apply shortest_from_around zero 17 (m.point - 1)
    have power : (10 : ℚ) ^ (m.point - 1) = 10 ^ (m.point - 1 - (17 : Nat)) * 10 ^ 17 := by
      rw [← zpow_natCast (10 : ℚ) 17, ← zpow_add₀ (by norm_num), sub_add_cancel]
    have point := point_value zero
    rw [power] at point
    linarith

end Magnitude

end TablePeek
