import TablePeek.Proofs.Number.Powers

set_option autoImplicit false

namespace TablePeek

open Magnitude

theorem unit_le {x z c : ℚ} {a b j : ℕ} (wide : Dropped x a) (fine : Dropped z b) (positive : 0 < c) (ratio : x ≤ c * z)
    (power : c ≤ 2 ^ j) : (2 : ℚ) ^ a ≤ 2 ^ j * 2 ^ b := by
  rw [← pow_add]
  apply pow_le_pow_right₀ (by norm_num)
  by_cases none : a = 0
  · rw [none]
    exact Nat.zero_le _
  · have bound : (2 : ℚ) ^ (52 + a) < 2 ^ (53 + (j + b)) :=
      calc (2 : ℚ) ^ (52 + a) ≤ x := by
            rw [pow_add]
            exact wide.filled none
        _ ≤ c * z := ratio
        _ < c * (2 ^ 53 * 2 ^ b) := mul_lt_mul_of_pos_left fine.below positive
        _ ≤ 2 ^ j * (2 ^ 53 * 2 ^ b) := mul_le_mul_of_nonneg_right power (by positivity)
        _ = 2 ^ (53 + (j + b)) := by
            rw [pow_add, pow_add]
            ring
    have := (pow_lt_pow_iff_right₀ (by norm_num)).mp bound
    omega

-- A significand is rounded and divided by a rounded power of ten, and the quotient, which is rounded again, is
-- divided by a power that is exact.
structure TwoDivisions (unit s t t' a p q x : ℚ) (wide fine : Nat) : Prop where
  unit_pos : 0 < unit
  s_nonneg : 0 ≤ s
  t_pos : 0 < t
  t_pos' : 0 < t'
  p_pos : 0 < p
  a_nonneg : 0 ≤ a
  x_nonneg : 0 ≤ x
  rounded : |a - unit * s| ≤ 2 ^ wide / 2
  dropped : Dropped (unit * s) wide
  power : Within (1 + 99 / 1000 / 2 ^ 53) p (unit * t)
  divided : |q - unit * a / p| ≤ 2 ^ fine / 2
  dropped' : Dropped (unit * a / p) fine
  target : Within (1 + 1 / 1844674407370955161) (unit * (s / (t * t'))) x
  between : Within (1 + 3 / 2 / 2 ^ 53) (unit * a / p) (unit * (s / t))

namespace TwoDivisions

variable {unit s t t' a p q x z : ℚ} {wide fine bits j j' : Nat}

theorem inverse (steps : TwoDivisions unit s t t' a p q x wide fine) :
    Within (1 + 99 / 1000 / 2 ^ 53) (unit / p) t⁻¹ := by
  have inverse := (steps.power.inv steps.p_pos (mul_pos steps.unit_pos steps.t_pos)).scale steps.unit_pos.le
  have exact : (unit * t)⁻¹ * unit = t⁻¹ := by
    have := steps.unit_pos.ne'
    have := steps.t_pos.ne'
    field_simp
  rwa [exact, mul_comm, ← div_eq_mul_inv] at inverse

theorem second_rounding (steps : TwoDivisions unit s t t' a p q x wide fine) (low : Dropped z bits)
    (near : unit * a / p ≤ (1 + 2 / 2 ^ 53) * t' * z) (power : (1 + 2 / 2 ^ 53) * t' ≤ 2 ^ j) :
    |q / t' - unit * a / p / t'| ≤ 2 ^ j / t' / 2 * 2 ^ bits := by
  have t_pos' := steps.t_pos'
  have units := unit_le steps.dropped' low (by positivity) near power
  rw [← sub_div, abs_div, abs_of_pos t_pos']
  calc |q - unit * a / p| / t' ≤ 2 ^ fine / 2 / t' := div_le_div_of_nonneg_right steps.divided t_pos'.le
    _ ≤ 2 ^ j * 2 ^ bits / 2 / t' := by gcongr
    _ = 2 ^ j / t' / 2 * 2 ^ bits := by ring

theorem first_rounding (steps : TwoDivisions unit s t t' a p q x wide fine) (low : Dropped z bits)
    (near : unit * s ≤ (1 + 5 / 2 ^ 53) * (t * t') * z) (power : (1 + 5 / 2 ^ 53) * (t * t') ≤ 2 ^ j') :
    |unit * a / p / t' - unit * (unit * s) / p / t'| ≤
      (1 + 99 / 1000 / 2 ^ 53) * (2 ^ j' / (t * t')) / 2 * 2 ^ bits := by
  have t_pos := steps.t_pos
  have t_pos' := steps.t_pos'
  have p_pos := steps.p_pos
  have unit_pos := steps.unit_pos
  have units := unit_le steps.dropped low (by positivity) near power
  have factor : unit * a / p / t' - unit * (unit * s) / p / t' = (a - unit * s) * (unit / p / t') := by ring
  rw [factor, abs_mul, abs_of_pos (show 0 < unit / p / t' by positivity)]
  calc |a - unit * s| * (unit / p / t') ≤ 2 ^ wide / 2 * (unit / p / t') :=
        mul_le_mul_of_nonneg_right steps.rounded (by positivity)
    _ ≤ 2 ^ j' * 2 ^ bits / 2 * (unit / p / t') := by gcongr
    _ ≤ 2 ^ j' * 2 ^ bits / 2 * ((1 + 99 / 1000 / 2 ^ 53) * t⁻¹ / t') := by
        gcongr
        exact steps.inverse.1
    _ = (1 + 99 / 1000 / 2 ^ 53) * (2 ^ j' / (t * t')) / 2 * 2 ^ bits := by
        field_simp

theorem power_cost (steps : TwoDivisions unit s t t' a p q x wide fine) (low : Dropped z bits)
    (near : x ≤ (1 + 5 / 2 ^ 53) * z) : |unit * (unit * s) / p / t' - x| ≤ 12 / 100 * 2 ^ bits := by
  have t_pos := steps.t_pos
  have t_pos' := steps.t_pos'
  have unit_pos := steps.unit_pos
  have s_nonneg := steps.s_nonneg
  have p_pos := steps.p_pos
  have quotient := steps.inverse.scale (show 0 ≤ unit * s / t' by positivity)
  have exact : t⁻¹ * (unit * s / t') = unit * (s / (t * t')) := by field_simp
  have same : unit / p * (unit * s / t') = unit * (unit * s) / p / t' := by ring
  rw [exact, same] at quotient
  have cost : (1 + 99 / 1000 / 2 ^ 53) * (1 + 1 / 1844674407370955161) ≤ 1 + 11 / 100 / (2 : ℚ) ^ 53 := by norm_num
  have within := (quotient.trans steps.target (by positivity) (by positivity)).mono (by positivity) steps.x_nonneg cost
  calc |unit * (unit * s) / p / t' - x| ≤ 11 / 100 / 2 ^ 53 * x := (within.apart (by positivity)).2
    _ ≤ 11 / 100 / 2 ^ 53 * ((1 + 5 / 2 ^ 53) * z) := mul_le_mul_of_nonneg_left near (by positivity)
    _ ≤ 11 / 100 / 2 ^ 53 * ((1 + 5 / 2 ^ 53) * (2 ^ 53 * 2 ^ bits)) := by
        have := low.below.le
        gcongr
    _ = 11 / 100 * (1 + 5 / 2 ^ 53) * 2 ^ bits := by field_simp
    _ ≤ 12 / 100 * 2 ^ bits := mul_le_mul_of_nonneg_right (by norm_num) (by positivity)

theorem close (steps : TwoDivisions unit s t t' a p q x wide fine) (low : Dropped z bits)
    (near : unit * a / p ≤ (1 + 2 / 2 ^ 53) * t' * z) (power : (1 + 2 / 2 ^ 53) * t' ≤ 2 ^ j)
    (power' : (1 + 5 / 2 ^ 53) * (t * t') ≤ 2 ^ j') (both : 2 ^ j / t' + 2 ^ j' / (t * t') ≤ 18 / 5) :
    |q / t' - x| < 2 * 2 ^ bits := by
  have t_pos := steps.t_pos
  have t_pos' := steps.t_pos'
  have unit_pos := steps.unit_pos
  have s_nonneg := steps.s_nonneg
  have a_nonneg := steps.a_nonneg
  have p_pos := steps.p_pos
  have crude : unit * (s / t) ≤ (1 + 3 / 2 / 2 ^ 53) * ((1 + 2 / 2 ^ 53) * t' * z) :=
    steps.between.2.trans (mul_le_mul_of_nonneg_left near (by positivity))
  have nonneg : 0 ≤ z := by
    have start : 0 ≤ unit * a / p := by positivity
    have factor : (0 : ℚ) < (1 + 2 / 2 ^ 53) * t' := by positivity
    refine nonneg_of_mul_nonneg_right ?_ factor
    linarith
  have all : unit * s ≤ (1 + 3 / 2 / 2 ^ 53) * (1 + 2 / 2 ^ 53) * (t * t' * z) :=
    calc unit * s = t * (unit * (s / t)) := by field_simp
      _ ≤ t * ((1 + 3 / 2 / 2 ^ 53) * ((1 + 2 / 2 ^ 53) * t' * z)) := mul_le_mul_of_nonneg_left crude t_pos.le
      _ = (1 + 3 / 2 / 2 ^ 53) * (1 + 2 / 2 ^ 53) * (t * t' * z) := by ring
  have whole : unit * s ≤ (1 + 5 / 2 ^ 53) * (t * t') * z := by
    rw [mul_assoc]
    exact all.trans (mul_le_mul_of_nonneg_right (by norm_num) (by positivity))
  have target : x ≤ (1 + 5 / 2 ^ 53) * z :=
    calc x ≤ (1 + 1 / 1844674407370955161) * (unit * (s / (t * t'))) := steps.target.2
      _ = (1 + 1 / 1844674407370955161) * (unit * s) / (t * t') := by ring
      _ ≤ (1 + 1 / 1844674407370955161) * ((1 + 3 / 2 / 2 ^ 53) * (1 + 2 / 2 ^ 53) * (t * t' * z)) / (t * t') := by gcongr
      _ = (1 + 1 / 1844674407370955161) * ((1 + 3 / 2 / 2 ^ 53) * (1 + 2 / 2 ^ 53)) * z := by field_simp
      _ ≤ (1 + 5 / 2 ^ 53) * z := mul_le_mul_of_nonneg_right (by norm_num) nonneg
  have second := steps.second_rounding low near power
  have first := steps.first_rounding low whole power'
  have third := steps.power_cost low target
  have bit : (0 : ℚ) < 2 ^ bits := by positivity
  calc |q / t' - x| ≤ |q / t' - unit * a / p / t'| + |unit * a / p / t' - unit * (unit * s) / p / t'| +
        |unit * (unit * s) / p / t' - x| := by
        refine (abs_sub_le _ (unit * (unit * s) / p / t') _).trans ?_
        have := abs_sub_le (q / t') (unit * a / p / t') (unit * (unit * s) / p / t')
        linarith
    _ ≤ 2 ^ j / t' / 2 * 2 ^ bits + (1 + 99 / 1000 / 2 ^ 53) * (2 ^ j' / (t * t')) / 2 * 2 ^ bits +
        12 / 100 * 2 ^ bits := by linarith
    _ = (2 ^ j / t' / 2 + (1 + 99 / 1000 / 2 ^ 53) * (2 ^ j' / (t * t')) / 2 + 12 / 100) * 2 ^ bits := by ring
    _ < 2 * 2 ^ bits := by
        refine mul_lt_mul_of_pos_right ?_ bit
        have : 0 < 2 ^ j / t' := by positivity
        have : 0 < 2 ^ j' / (t * t') := by positivity
        linarith

theorem between_target (steps : TwoDivisions unit s t t' a p q x wide fine) :
    Within (1 + 2 / 2 ^ 53) (unit * a / p / t') x := by
  have t_pos := steps.t_pos
  have t_pos' := steps.t_pos'
  have between := steps.between.scale (inv_nonneg.mpr t_pos'.le)
  have exact : unit * (s / t) * t'⁻¹ = unit * (s / (t * t')) := by field_simp
  rw [exact, ← div_eq_mul_inv] at between
  have target := between.trans steps.target (by positivity) (by positivity)
  have unit_pos := steps.unit_pos
  have a_nonneg := steps.a_nonneg
  have p_pos := steps.p_pos
  exact target.mono (by positivity) steps.x_nonneg (by norm_num)

-- A quotient below 2 ^ 52 steps is rounded to a whole step, and little of that is left by a second division.
theorem below_one (steps : TwoDivisions unit s t t' a p q x wide fine) (few : unit * a / p < 2 ^ 52) (ten : 10 ≤ t')
    {y : ℚ} (near : Within (1 + 1 / 2 ^ 53) y (q / t')) : |y - x| < 1 := by
  have none : fine = 0 := by
    by_contra some
    have filled := steps.dropped'.filled some
    have one : (1 : ℚ) ≤ 2 ^ fine := one_le_pow₀ (by norm_num)
    linarith
  have divided := steps.divided
  rw [none, pow_zero] at divided
  have second := (near.apart (by positivity)).2
  have target := (steps.between_target.apart (by positivity)).1
  have t_pos' := steps.t_pos'
  have step : |q / t' - unit * a / p / t'| ≤ 1 / 2 / t' := by
    rw [← sub_div, abs_div, abs_of_pos t_pos']
    exact div_le_div_of_nonneg_right divided t_pos'.le
  have high : q / t' ≤ (2 ^ 52 + 1) / t' := by
    have := (abs_le.mp divided).2
    exact div_le_div_of_nonneg_right (by linarith) t_pos'.le
  have low : unit * a / p / t' ≤ 2 ^ 52 / t' := div_le_div_of_nonneg_right few.le t_pos'.le
  have tenth : 1 / t' ≤ 1 / 10 := one_div_le_one_div_of_le (by norm_num) ten
  have parts : (2 ^ 52 + 1) / t' = (2 ^ 52 + 1) * (1 / t') ∧ 2 ^ 52 / t' = 2 ^ 52 * (1 / t') ∧
      1 / 2 / t' = 1 / 2 * (1 / t') := by
    refine ⟨?_, ?_, ?_⟩ <;> ring
  rw [parts.1] at high
  rw [parts.2.1] at low
  rw [parts.2.2] at step
  have := abs_sub_le y (q / t') x
  have := abs_sub_le (q / t') (unit * a / p / t') x
  linarith

theorem close_both {bits' : Nat} (steps : TwoDivisions unit s t t' a p q x wide fine)
    (second : Within (1 + 1 / 2 ^ 53) q (unit * a / p)) (low : Dropped x bits) (low' : Dropped (q / t') bits')
    (power : (1 + 2 / 2 ^ 53) * t' ≤ 2 ^ j) (power' : (1 + 5 / 2 ^ 53) * (t * t') ≤ 2 ^ j')
    (both : 2 ^ j / t' + 2 ^ j' / (t * t') ≤ 18 / 5) :
    |q / t' - x| < 2 * 2 ^ bits ∧ |q / t' - x| < 2 * 2 ^ bits' := by
  have t_pos' := steps.t_pos'
  have target := steps.between_target.1
  rw [div_le_iff₀ t_pos'] at target
  have q_nonneg : 0 ≤ q := by
    have unit_pos := steps.unit_pos
    have a_nonneg := steps.a_nonneg
    have p_pos := steps.p_pos
    have start : 0 ≤ unit * a / p := by positivity
    have factor : (0 : ℚ) < 1 + 1 / 2 ^ 53 := by positivity
    exact nonneg_of_mul_nonneg_right (start.trans second.2) factor
  constructor
  · exact steps.close low (by linarith) power power' both
  · refine steps.close low' ?_ power power' both
    have exact : (1 + 2 / 2 ^ 53) * t' * (q / t') = (1 + 2 / 2 ^ 53) * q := by field_simp
    rw [exact]
    exact second.2.trans (mul_le_mul_of_nonneg_right (by norm_num) q_nonneg)

-- Few enough steps are left that no cost reaches one of them.
theorem close_small (steps : TwoDivisions unit s t t' a p q x wide fine)
    (second : Within (1 + 1 / 2 ^ 53) q (unit * a / p)) (few : x ≤ 2 ^ 40) {y : ℚ} (nonneg : 0 ≤ y)
    (near : Within (1 + 1 / 2 ^ 53) y (q / t')) : |y - x| < 1 := by
  have divided := second.scale (inv_nonneg.mpr steps.t_pos'.le)
  rw [← div_eq_mul_inv, ← div_eq_mul_inv] at divided
  have chain := (near.trans divided (by positivity) (by positivity)).trans steps.between_target (by positivity)
    (by positivity)
  have within : Within (1 + 5 / 2 ^ 53) y x := chain.mono nonneg steps.x_nonneg (by norm_num)
  have share := (within.apart (by positivity)).2
  linarith

end TwoDivisions

theorem exact_powers : ∀ k < 23, k ≠ 0 →
    (2 ^ 53 + 2) * 10 ^ k ≤ 2 ^ 53 * 2 ^ (tenBits k + 1) ∧
    (2 ^ 53 + 5) * (10 ^ 308 * 10 ^ k) ≤ 2 ^ 53 * 2 ^ (tenBits (308 + k) + 1) ∧
    5 * (2 ^ (tenBits k + 1) * 10 ^ 308 + 2 ^ (tenBits (308 + k) + 1)) ≤ 18 * (10 ^ 308 * 10 ^ k) := by
  decide +kernel

theorem exact_power (k : Nat) (some : k ≠ 0) (exact : k ≤ 22) : ∃ j j' : Nat,
    (1 + 2 / 2 ^ 53) * (10 ^ k : ℚ) ≤ 2 ^ j ∧ (1 + 5 / 2 ^ 53) * (10 ^ 308 * 10 ^ k : ℚ) ≤ 2 ^ j' ∧
    2 ^ j / (10 ^ k : ℚ) + 2 ^ j' / (10 ^ 308 * 10 ^ k) ≤ 18 / 5 := by
  have t_pos : (0 : ℚ) < 10 ^ 308 := by positivity
  have t_pos' : (0 : ℚ) < 10 ^ k := by positivity
  obtain ⟨above, above', both⟩ := exact_powers k (by omega) some
  refine ⟨tenBits k + 1, tenBits (308 + k) + 1, ?_⟩
  have low : ((2 ^ 53 : ℚ) + 2) * 10 ^ k ≤ 2 ^ 53 * 2 ^ (tenBits k + 1) := by exact_mod_cast above
  have low' : ((2 ^ 53 : ℚ) + 5) * (10 ^ 308 * 10 ^ k) ≤ 2 ^ 53 * 2 ^ (tenBits (308 + k) + 1) := by
    exact_mod_cast above'
  have sum : 5 * ((2 ^ (tenBits k + 1) : ℚ) * 10 ^ 308 + 2 ^ (tenBits (308 + k) + 1)) ≤
      18 * (10 ^ 308 * 10 ^ k) := by
    exact_mod_cast both
  generalize (10 ^ 308 : ℚ) = t at *
  generalize (10 ^ k : ℚ) = t' at *
  generalize (2 ^ (tenBits k + 1) : ℚ) = a at *
  generalize (2 ^ (tenBits (308 + k) + 1) : ℚ) = b at *
  refine ⟨by linarith, by linarith, ?_⟩
  have join : a / t' + b / (t * t') = (a * t + b) / (t * t') := by field_simp
  rw [join, div_le_iff₀ (by positivity)]
  linarith

end TablePeek
