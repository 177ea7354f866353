import TablePeek.Proofs.Number.Gathered
import TablePeek.Proofs.Number.Numeral
import TablePeek.Proofs.Number.TwoDivisions

/-!
How far a number that is read by scaling is from the nearest one. The significand, the power of ten and the result are
each rounded once, or the result twice when the power is past the last one that is listed; the costs add up to less
than two places.
-/

set_option autoImplicit false

namespace TablePeek

section Costs

variable {unit s t a p v share : ℚ}

theorem costs_le (most : share ≤ 907) :
    (1 + 1 / 2 ^ 53) * (1 + share / 1000 / 2 ^ 53) * (1 + 1 / 1844674407370955161) ≤ 1 + ((2 : Nat) : ℚ) / 2 ^ 53 := by
  calc (1 + 1 / 2 ^ 53) * (1 + share / 1000 / 2 ^ 53) * (1 + 1 / 1844674407370955161)
      ≤ (1 + 1 / 2 ^ 53) * (1 + 907 / 1000 / 2 ^ 53) * (1 + 1 / 1844674407370955161 : ℚ) := by gcongr
    _ ≤ 1 + ((2 : Nat) : ℚ) / 2 ^ 53 := by norm_num

theorem product_within (positive : 0 < unit) (s_nonneg : 0 ≤ s) (a_nonneg : 0 ≤ a) (p_nonneg : 0 ≤ p)
    (v_nonneg : 0 ≤ v) (least : 0 ≤ share) (most : share ≤ 907) (first : Within (1 + 1 / 2 ^ 53) a (unit * s))
    (second : Within (1 + share / 1000 / 2 ^ 53) p (unit * t))
    (near : Within (1 + 1 / 1844674407370955161) (unit * (s * t)) v) :
    Within (1 + ((2 : Nat) : ℚ) / 2 ^ 53) (a * p / unit) v := by
  have product := (first.mul second (by positivity) p_nonneg (by positivity) (by positivity)).scale (inv_nonneg.mpr positive.le)
  have exact : unit * s * (unit * t) * unit⁻¹ = unit * (s * t) := by field_simp
  rw [exact, ← div_eq_mul_inv] at product
  exact (product.trans near (by positivity) (by positivity)).mono (by positivity) v_nonneg (costs_le most)

theorem quotient_cost (positive : 0 < unit) (s_nonneg : 0 ≤ s) (t_pos : 0 < t) (p_pos : 0 < p) (least : 0 ≤ share)
    (first : Within (1 + 1 / 2 ^ 53) a (unit * s)) (second : Within (1 + share / 1000 / 2 ^ 53) p (unit * t)) :
    Within ((1 + 1 / 2 ^ 53) * (1 + share / 1000 / 2 ^ 53)) (unit * a / p) (unit * (s / t)) := by
  have quotient := (first.div second (by positivity) p_pos (by positivity) (by positivity) (by positivity)).scale positive.le
  have exact : unit * s / (unit * t) * unit = unit * (s / t) := by field_simp
  rwa [exact, mul_comm (a / p), ← mul_div_assoc] at quotient

theorem quotient_within (positive : 0 < unit) (s_nonneg : 0 ≤ s) (t_pos : 0 < t) (a_nonneg : 0 ≤ a) (p_pos : 0 < p)
    (v_nonneg : 0 ≤ v) (least : 0 ≤ share) (most : share ≤ 907) (first : Within (1 + 1 / 2 ^ 53) a (unit * s))
    (second : Within (1 + share / 1000 / 2 ^ 53) p (unit * t))
    (near : Within (1 + 1 / 1844674407370955161) (unit * (s / t)) v) :
    Within (1 + ((2 : Nat) : ℚ) / 2 ^ 53) (unit * a / p) v := by
  have quotient := quotient_cost positive s_nonneg t_pos p_pos least first second
  exact (quotient.trans near (by positivity) (by positivity)).mono (by positivity) v_nonneg (costs_le most)

end Costs

open Magnitude

namespace Binary64

variable {significand k num den : Nat} {m r : Magnitude}

theorem whole_steps (n : Nat) : ((stepsInOne * n : Nat) : ℚ) / (1 : Nat) = stepsInOne * n := by
  rw [Nat.cast_mul, Nat.cast_one, div_one]

theorem significand_within (nonzero : significand ≠ 0)
    (rounded : nearest? (stepsInOne * significand) 1 = some m) :
    Within (1 + 1 / 2 ^ 53) m.steps (stepsInOne * significand) := by
  have normal : (2 : ℚ) ^ 52 ≤ ((stepsInOne * significand : Nat) : ℚ) / (1 : Nat) := by
    have one : 2 ^ 52 ≤ stepsInOne := by decide +kernel
    have large : 2 ^ 52 ≤ stepsInOne * significand :=
      Nat.le_trans one (Nat.le_mul_of_pos_right _ (Nat.pos_of_ne_zero nonzero))
    rw [Nat.cast_one, div_one]
    exact_mod_cast large
  have within := found_within Nat.one_pos rounded normal
  rwa [whole_steps] at within

theorem significand_kept (nonzero : significand ≠ 0) (rounded : nearest? (stepsInOne * significand) 1 = some m) :
    m.significand ≠ 0 := by
  intro none
  have exact : (0 : ℚ) < stepsInOne * significand :=
    mul_pos steps_in_one_cast (Nat.cast_pos.mpr (Nat.pos_of_ne_zero nonzero))
  have filled := (significand_within nonzero rounded).positive (by norm_num) exact
  rw [steps, none, Nat.zero_mul, Nat.cast_zero] at filled
  exact lt_irrefl 0 filled

theorem times_apart (nonzero : significand ≠ 0) (rounded : nearest? (stepsInOne * significand) 1 = some m)
    (listed : k ≤ 308) (scaled : timesPower m k = some r) (positive : 0 < den)
    (near : Within (1 + 1 / 1844674407370955161) (stepsInOne * (significand * 10 ^ k)) (num / den)) :
    Apart 2 r.place (placeOf num den) := by
  obtain ⟨p, found, _, power⟩ := power_within k listed
  rw [timesPower, found, Option.bind_some] at scaled
  have within := product_within steps_in_one_cast significand.cast_nonneg m.steps.cast_nonneg p.steps.cast_nonneg
    (by positivity) (powerShare k).cast_nonneg (power_share_le k) (significand_within nonzero rounded) power near
  rw [← Nat.cast_mul] at within
  rw [found_place scaled]
  exact places_within (by decide) steps_in_one_positive positive within

theorem over_apart (nonzero : significand ≠ 0) (rounded : nearest? (stepsInOne * significand) 1 = some m)
    (listed : k ≤ 308) (scaled : overPower m k = some r) (positive : 0 < den)
    (near : Within (1 + 1 / 1844674407370955161) (stepsInOne * (significand / 10 ^ k)) (num / den)) :
    Apart 2 r.place (placeOf num den) := by
  obtain ⟨p, found, filled, power⟩ := power_within k listed
  rw [overPower, found, Option.bind_some] at scaled
  have within := quotient_within steps_in_one_cast significand.cast_nonneg (by positivity) m.steps.cast_nonneg
    (Nat.cast_pos.mpr filled) (by positivity) (powerShare k).cast_nonneg (power_share_le k)
    (significand_within nonzero rounded) power near
  rw [← Nat.cast_mul] at within
  rw [found_place scaled]
  exact places_within (by decide) filled positive within

section Twice

variable {q : Magnitude} {t' x : ℚ}

theorem two_divisions (nonzero : significand ≠ 0) (rounded : nearest? (stepsInOne * significand) 1 = some m)
    (divided : overPower m 308 = some q) (positive : 0 < t') (nonneg : 0 ≤ x)
    (near : Within (1 + 1 / 1844674407370955161) (stepsInOne * (significand / (10 ^ 308 * t'))) x) :
    ∃ p, 0 < p ∧ nearest? (stepsInOne * m.steps) p = some q ∧
      TwoDivisions stepsInOne significand (10 ^ 308) t' m.steps p q.steps x (excess (stepsInOne * significand) 1)
        (excess (stepsInOne * m.steps) p) := by
  obtain ⟨p, found, filled, power⟩ := power_within 308 (Nat.le_refl _)
  rw [overPower, found, Option.bind_some] at divided
  have share : powerShare 308 = 99 := rfl
  rw [share] at power
  have p_pos : (0 : ℚ) < p.steps := Nat.cast_pos.mpr filled
  have power_pos : (0 : ℚ) < 10 ^ 308 := by positivity
  have quotient : ((stepsInOne * m.steps : Nat) : ℚ) / p.steps = stepsInOne * m.steps / p.steps := by
    rw [Nat.cast_mul]
  have rounding := found_close Nat.one_pos rounded
  have dropped := excess_dropped (stepsInOne * significand) Nat.one_pos
  rw [whole_steps] at rounding dropped
  have rounding' := found_close filled divided
  have dropped' := excess_dropped (stepsInOne * m.steps) filled
  rw [quotient] at rounding' dropped'
  have cost := quotient_cost steps_in_one_cast significand.cast_nonneg power_pos p_pos (by norm_num)
    (significand_within nonzero rounded) power
  refine ⟨p.steps, filled, divided, steps_in_one_cast, significand.cast_nonneg, power_pos, positive, p_pos,
    m.steps.cast_nonneg, nonneg, rounding, dropped, power, rounding', dropped', near, ?_⟩
  refine cost.mono ?_ ?_ (by norm_num)
  · exact div_nonneg (mul_nonneg steps_in_one_cast.le m.steps.cast_nonneg) p_pos.le
  · exact mul_nonneg steps_in_one_cast.le (div_nonneg significand.cast_nonneg power_pos.le)

theorem power_divides (positive : 0 < t') {p : Nat} {share : ℚ} (filled : 0 < p)
    (power : Within (1 + share / 1000 / 2 ^ 53) p (stepsInOne * t')) :
    Within (1 + share / 1000 / 2 ^ 53) ((stepsInOne * q.steps : Nat) / p) (q.steps / t') := by
  have unit := steps_in_one_cast
  rw [Nat.cast_mul]
  generalize ((stepsInOne : Nat) : ℚ) = u at *
  have p_pos : (0 : ℚ) < p := Nat.cast_pos.mpr filled
  have quotient := (power.inv p_pos (mul_pos unit positive)).scale (mul_nonneg unit.le q.steps.cast_nonneg)
  have exact : (u * t')⁻¹ * (u * q.steps) = q.steps / t' := by field_simp
  rwa [exact, mul_comm, ← div_eq_mul_inv] at quotient

theorem few_steps_left (parts most least : Nat) (bound : parts * (stepsInOne * 2 ^ 64) ≤ most * (10 ^ 308 * 10 ^ least))
    (small : significand < 2 ^ 64) (far : least ≤ k)
    (near : Within (1 + 1 / 1844674407370955161) (stepsInOne * (significand / (10 ^ 308 * 10 ^ k))) x) :
    parts * x ≤ 2 * most := by
  have all : parts * (stepsInOne * significand) ≤ most * (10 ^ 308 * 10 ^ k) :=
    calc parts * (stepsInOne * significand) ≤ parts * (stepsInOne * 2 ^ 64) :=
          Nat.mul_le_mul_left _ (Nat.mul_le_mul_left _ (Nat.le_of_lt small))
      _ ≤ most * (10 ^ 308 * 10 ^ least) := bound
      _ ≤ most * (10 ^ 308 * 10 ^ k) := Nat.mul_le_mul_left _ (Nat.mul_le_mul_left _ (Nat.pow_le_pow_right (by decide) far))
  have cast : (parts : ℚ) * (stepsInOne * significand) ≤ most * (10 ^ 308 * 10 ^ k) := by exact_mod_cast all
  have t_pos : (0 : ℚ) < 10 ^ 308 := by positivity
  have t_pos' : (0 : ℚ) < 10 ^ k := by positivity
  have left : parts * ((stepsInOne : ℚ) * (significand / (10 ^ 308 * 10 ^ k))) ≤ most := by
    rw [← mul_div_assoc, ← mul_div_assoc, div_le_iff₀ (mul_pos t_pos t_pos')]
    exact cast
  generalize (10 : ℚ) ^ 308 = t at *
  have share := mul_le_mul_of_nonneg_left near.2 (show (0 : ℚ) ≤ parts from Nat.cast_nonneg parts)
  have whole : (0 : ℚ) ≤ most := Nat.cast_nonneg most
  linarith

end Twice

theorem twice_apart (nonzero : significand ≠ 0) (small : significand < 2 ^ 64)
    (rounded : nearest? (stepsInOne * significand) 1 = some m) {q : Magnitude} (divided : overPower m 308 = some q)
    (more : k ≠ 0) (listed : k ≤ 308) (scaled : overPower q k = some r) (positive : 0 < den)
    (near : Within (1 + 1 / 1844674407370955161) (stepsInOne * (significand / (10 ^ 308 * 10 ^ k))) (num / den)) :
    Apart 2 r.place (placeOf num den) := by
  have power_pos : (0 : ℚ) < 10 ^ k := by positivity
  obtain ⟨p, filled, found, steps⟩ := two_divisions nonzero rounded divided power_pos (by positivity) near
  obtain ⟨p', found', filled', power⟩ := power_within k listed
  rw [overPower, found', Option.bind_some] at scaled
  rw [found_place scaled]
  have second := power_divides (q := q) power_pos filled' power
  have share := power_share_le k
  have cost : (1 : ℚ) + powerShare k / 1000 / 2 ^ 53 ≤ 1 + 1 / 2 ^ 53 := by linarith
  have left : (0 : ℚ) ≤ (stepsInOne * q.steps : Nat) / p'.steps := div_nonneg (Nat.cast_nonneg _) (Nat.cast_nonneg _)
  have near' := second.mono left (div_nonneg q.steps.cast_nonneg power_pos.le) cost
  by_cases few : (stepsInOne : ℚ) * m.steps / p < 2 ^ 52
  · have ten : 10 ^ 1 ≤ 10 ^ k := Nat.pow_le_pow_right (by decide) (Nat.one_le_iff_ne_zero.mpr more)
    have bound : (10 : ℚ) ≤ 10 ^ k := by exact_mod_cast ten
    exact (apart_of_below_one filled' positive (steps.below_one few bound near')).mono (by decide)
  · have quotient : ((stepsInOne * m.steps : Nat) : ℚ) / p = stepsInOne * m.steps / p := by rw [Nat.cast_mul]
    have normal := found_within filled found (by rw [quotient]; exact not_lt.mp few)
    rw [quotient] at normal
    by_cases exact : k ≤ 22
    · have none : powerShare k = 0 := if_pos exact
      rw [none, Nat.cast_zero, zero_div, zero_div, add_zero] at second
      have same : ((stepsInOne * q.steps : Nat) : ℚ) / p'.steps = q.steps / 10 ^ k :=
        le_antisymm (by linarith [second.1]) (by linarith [second.2])
      obtain ⟨j, j', above, above', both⟩ := exact_power k more exact
      have dropped' := excess_dropped (stepsInOne * q.steps) filled'
      rw [same] at dropped'
      have close := steps.close_both normal (excess_dropped num positive) dropped' above above' both
      apply places_apart (by decide) filled' positive
      · rw [same]
        exact close.2
      · rw [same]
        exact close.1
    · have few' := few_steps_left 1 (2 ^ 39) 23 (by decide +kernel) small (by omega) near
      rw [Nat.cast_one, one_mul, Nat.cast_pow, Nat.cast_ofNat, ← pow_succ'] at few'
      exact (apart_of_below_one filled' positive (steps.close_small normal few' left near')).mono (by decide)

theorem zero_place (zero : m.significand = 0) : m.place = 0 := by
  have normal := m.normal
  rw [place]
  omega

theorem over_zero (zero : m.significand = 0) (scaled : overTenTo m k = some r) : r.place = 0 := by
  rw [overTenTo] at scaled
  split at scaled
  · rename_i listed
    obtain ⟨p, found, filled, _⟩ := power_within k listed
    rw [overPower, found, Option.bind_some] at scaled
    have none : m.steps = 0 := by rw [steps, zero, Nat.zero_mul]
    rw [found_place scaled, none, Nat.mul_zero]
    exact place_of_small filled
  · cases scaled
    exact zero_place zero

-- After the first division too few steps are left for a second one by the last power that is listed.
theorem quotient_few {q : Magnitude} {t' x : ℚ} {p : Nat} (small : significand < 2 ^ 64)
    (steps : TwoDivisions stepsInOne significand (10 ^ 308) t' m.steps p q.steps x (excess (stepsInOne * significand) 1)
      (excess (stepsInOne * m.steps) p)) : 4 * q.steps < 10 ^ 308 := by
  have few : stepsInOne * 2 ^ 64 ≤ 2 ^ 116 * 10 ^ 308 := by decide +kernel
  have far : 2 ^ 121 < 10 ^ 308 := by decide +kernel
  have all : stepsInOne * significand ≤ 2 ^ 116 * 10 ^ 308 :=
    Nat.le_trans (Nat.mul_le_mul_left _ (Nat.le_of_lt small)) few
  have bound : (stepsInOne : ℚ) * significand ≤ 2 ^ 116 * 10 ^ 308 := by exact_mod_cast all
  have left : (stepsInOne : ℚ) * (significand / 10 ^ 308) ≤ 2 ^ 116 := by
    rw [← mul_div_assoc, div_le_iff₀ (by positivity)]
    exact bound
  generalize (10 : ℚ) ^ 308 = t at *
  have between := steps.between.1
  have divided := (abs_le.mp steps.divided).2
  have half : (2 : ℚ) ^ excess (stepsInOne * m.steps) p / 2 ≤ 2 ^ 116 := by
    by_cases none : excess (stepsInOne * m.steps) p = 0
    · rw [none]
      norm_num
    · have := steps.dropped'.filled none
      linarith
  have rest : (q.steps : ℚ) ≤ 2 ^ 118 := by linarith
  have four : 4 * 2 ^ 118 < 2 ^ 121 := by decide
  calc 4 * q.steps ≤ 4 * 2 ^ 118 := Nat.mul_le_mul_left 4 (by exact_mod_cast rest)
    _ < 2 ^ 121 := four
    _ < 10 ^ 308 := far

theorem far_place {q : Magnitude} (few : 4 * q.steps < 10 ^ 308) (more : 308 < k)
    (scaled : overTenTo q k = some r) : r.place = 0 := by
  by_cases zero : q.significand = 0
  · exact over_zero zero scaled
  · rw [overTenTo, if_neg (Nat.not_le_of_gt more), if_neg zero] at scaled
    obtain ⟨q', found', rest⟩ := Option.bind_eq_some_iff.mp scaled
    obtain ⟨p, found, filled, power⟩ := power_within 308 (Nat.le_refl _)
    rw [overPower, found, Option.bind_some] at found'
    have small : 2 * (stepsInOne * q.steps) < p.steps := by
      have unit := steps_in_one_cast
      have four : (4 * q.steps : ℚ) < 10 ^ 308 := by exact_mod_cast few
      have parts : (stepsInOne : ℚ) * (4 * q.steps) < stepsInOne * 10 ^ 308 := mul_lt_mul_of_pos_left four unit
      have nonneg : (0 : ℚ) ≤ p.steps := Nat.cast_nonneg _
      have share := mul_le_mul_of_nonneg_right (power_share_le 308) nonneg
      have above := power.2
      have bound : (2 * (stepsInOne * q.steps) : ℚ) < p.steps := by
        generalize (10 : ℚ) ^ 308 = t at *
        linarith
      exact_mod_cast bound
    have place := found_place found'
    rw [place_of_small small, Magnitude.place] at place
    exact over_zero (by omega) rest

theorem over_ten_apart (nonzero : significand ≠ 0) (small : significand < 2 ^ 64)
    (rounded : nearest? (stepsInOne * significand) 1 = some m) (scaled : overTenTo m k = some r) (positive : 0 < den)
    (near : Within (1 + 1 / 1844674407370955161) (stepsInOne * (significand / 10 ^ k)) (num / den)) :
    Apart 2 r.place (placeOf num den) := by
  by_cases listed : k ≤ 308
  · rw [overTenTo, if_pos listed] at scaled
    exact over_apart nonzero rounded listed scaled positive near
  · obtain ⟨more, rfl⟩ := Nat.exists_eq_add_of_lt (Nat.lt_of_not_le listed)
    have digits : 308 + more + 1 - 308 = more + 1 := by omega
    have some := significand_kept nonzero rounded
    rw [overTenTo, if_neg listed, if_neg some, digits] at scaled
    obtain ⟨q, divided, rest⟩ := Option.bind_eq_some_iff.mp scaled
    rw [Nat.add_assoc, pow_add] at near
    have ratio : (0 : ℚ) ≤ num / den := div_nonneg num.cast_nonneg den.cast_nonneg
    by_cases twice : more + 1 ≤ 308
    · rw [overTenTo, if_pos twice] at rest
      exact twice_apart nonzero small rounded divided (Nat.succ_ne_zero more) twice rest positive near
    · obtain ⟨p, filled, found, steps⟩ :=
        two_divisions nonzero rounded divided (by positivity) ratio near
      have place := far_place (quotient_few small steps) (Nat.lt_of_not_le twice) rest
      have left := few_steps_left 8 1 309 (by decide +kernel) small (by omega) near
      have den_positive : (0 : ℚ) < den := Nat.cast_pos.mpr positive
      have half : 2 * ((num : ℚ) / den) < 1 := by
        rw [Nat.cast_ofNat, Nat.cast_one] at left
        linarith
      have none : 2 * num < den := by
        rw [← mul_div_assoc, div_lt_one den_positive] at half
        exact_mod_cast half
      rw [place, place_of_small none]
      exact ⟨Nat.zero_le _, Nat.zero_le _⟩

end Binary64

namespace Gathered

variable {g : Gathered} {n decimals raised up down : Nat} {e : Int} {negative : Bool}

theorem Gathers.near (known : Gathers g n decimals raised) {power : ℚ}
    (same : 10 ^ raised * (10 ^ up / 10 ^ down) = power) :
    Within (1 + 1 / 1844674407370955161) (stepsInOne * (g.significand * power))
      ((stepsInOne * (n * 10 ^ up) : Nat) / (10 ^ down : Nat)) := by
  have factor := known.within.scale (c := stepsInOne * (10 ^ up / 10 ^ down))
    (mul_nonneg (Nat.cast_nonneg _) (by positivity))
  rw [← same]
  push_cast
  generalize (stepsInOne : ℚ) = unit at *
  have left : g.significand * 10 ^ raised * (unit * (10 ^ up / 10 ^ down)) =
      unit * (g.significand * (10 ^ raised * (10 ^ up / 10 ^ down))) := by ring
  have right : n * (unit * (10 ^ up / 10 ^ down)) = unit * (n * 10 ^ up) / 10 ^ down := by ring
  rwa [left, right] at factor

theorem power_up (k up down : Nat) (same : raised + up = k + down) : (10 ^ raised * (10 ^ up / 10 ^ down) : ℚ) = 10 ^ k := by
  rw [← mul_div_assoc, ← pow_add, same, pow_add, mul_div_cancel_right₀ _ (by positivity)]

theorem power_down (k up down : Nat) (same : raised + up + k = down) :
    (10 ^ raised * (10 ^ up / 10 ^ down) : ℚ) = (10 ^ k : ℚ)⁻¹ := by
  rw [← mul_div_assoc, ← pow_add, ← same, pow_add _ _ k, div_mul_cancel_left₀ (by positivity)]

theorem Gathers.read_apart (known : Gathers g n decimals raised) (nonzero : n ≠ 0) (e : Int) {x : Binary64}
    (read : g.toBinary64? negative e = some x) : ∃ r, x = .finite negative r ∧
      Apart 2 r.place (placeOf (stepsInOne * Numeral.num ⟨negative, n, e - decimals⟩)
        (Numeral.den ⟨negative, n, e - decimals⟩)) := by
  obtain ⟨r, scaled, rfl⟩ := Option.map_eq_some_iff.mp read
  obtain ⟨m, rounded, scaled⟩ := Option.bind_eq_some_iff.mp scaled
  refine ⟨r, rfl, ?_⟩
  have some := known.nonzero nonzero
  have exponent := known.exponent
  have positive : 0 < 10 ^ (-(e - decimals)).toNat := Nat.pow_pos (by decide)
  rw [Numeral.num, Numeral.den]
  simp only
  rw [Binary64.scaled?] at scaled
  split at scaled
  · rename_i below
    have near := known.near (power_down (g.exponent + e).natAbs (e - decimals).toNat (-(e - decimals)).toNat (by omega))
    rw [← div_eq_mul_inv] at near
    exact Binary64.over_ten_apart some known.bounded rounded scaled positive near
  · rename_i above
    split at scaled
    · rename_i listed
      have near := known.near (power_up (g.exponent + e).natAbs (e - decimals).toNat (-(e - decimals)).toNat (by omega))
      exact Binary64.times_apart some rounded listed scaled positive near
    · rw [if_neg (Binary64.significand_kept some rounded)] at scaled
      cases scaled

end Gathered

end TablePeek
