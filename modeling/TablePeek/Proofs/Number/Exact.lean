import TablePeek.Proofs.Number.Scaled

set_option autoImplicit false

namespace TablePeek

theorem div_nearest_exact (n : Nat) {den : Nat} (positive : 0 < den) : divNearest (n * den) den = n := by
  have rest : n * den % den = 0 := Nat.mul_mod_left n den
  rw [divNearest, rest, Nat.mul_zero, if_pos (.inl positive), Nat.mul_div_cancel n positive]

namespace Magnitude

variable {num k : Nat} {m r : Magnitude}

theorem found_exact (found : nearest? num 1 = some m) (whole : 2 ^ excess num 1 ∣ num) : m.steps = num := by
  obtain ⟨n, same⟩ := whole
  have positive := Nat.two_pow_pos (excess num 1)
  rw [(found_steps found).1, kept, Nat.one_mul]
  generalize 2 ^ excess num 1 = unit at *
  rw [same, Nat.mul_comm unit, div_nearest_exact n positive]

theorem excess_of_lt (bits : Nat) (many : 52 < bits) (few : num < 2 ^ bits) : excess num 1 ≤ bits - 53 := by
  rw [excess, Nat.div_one]
  by_cases none : num = 0
  · rw [none]
    exact Nat.zero_le _
  · have := (Nat.log2_lt none).mpr few
    omega

theorem bits_exact {n : Nat} (k : Nat) (few : n ≤ 2 ^ 53) (found : nearest? (stepsInOne * (n * 2 ^ k)) 1 = some m) :
    m.steps = stepsInOne * (n * 2 ^ k) := by
  apply found_exact found
  have shape : stepsInOne * (n * 2 ^ k) = n * 2 ^ (1074 + k) := by
    rw [← Binary64.steps_in_one_shifted, Nat.mul_left_comm]
  rw [shape]
  rcases Nat.lt_or_eq_of_le few with small | full
  · have bound : n * 2 ^ (1074 + k) < 2 ^ (53 + (1074 + k)) := by
      rw [Nat.pow_add 2 53]
      exact Nat.mul_lt_mul_of_pos_right small (Nat.two_pow_pos _)
    have dropped := excess_of_lt (53 + (1074 + k)) (by omega) bound
    exact Nat.dvd_trans (Nat.pow_dvd_pow 2 (by omega)) (Nat.dvd_mul_left _ _)
  · rw [full, ← Nat.pow_add]
    have bound : 2 ^ (53 + (1074 + k)) < 2 ^ (54 + (1074 + k)) := Nat.pow_lt_pow_right (by decide) (by omega)
    have dropped := excess_of_lt (54 + (1074 + k)) (by omega) bound
    exact Nat.pow_dvd_pow 2 (by omega)

theorem significand_exact {n : Nat} (few : n ≤ 2 ^ 53) (found : nearest? (stepsInOne * n) 1 = some m) :
    m.steps = stepsInOne * n := by
  have one : n * 2 ^ 0 = n := Nat.mul_one n
  rw [← one] at found ⊢
  exact bits_exact 0 few found

theorem power_exact (few : k ≤ 22) : ∃ p, nearest? (stepsInOne * 10 ^ k) 1 = some p ∧ p.steps = stepsInOne * 10 ^ k := by
  obtain ⟨p, found, _, within⟩ := power_within k (by omega)
  have none : powerShare k = 0 := if_pos few
  rw [none, Nat.cast_zero, zero_div, zero_div, add_zero] at within
  have same : (p.steps : ℚ) = (stepsInOne * 10 ^ k : Nat) := by
    rw [Nat.cast_mul, Nat.cast_pow, Nat.cast_ofNat]
    exact le_antisymm (by linarith [within.1]) (by linarith [within.2])
  exact ⟨p, found, Nat.cast_injective same⟩

end Magnitude

open Magnitude

namespace Binary64

variable {n k : Nat} {m r : Magnitude}

theorem times_exact (few : k ≤ 22) (whole : m.steps = stepsInOne * n) (scaled : timesPower m k = some r) :
    r.place = placeOf (stepsInOne * (n * 10 ^ k)) 1 := by
  obtain ⟨p, found, exact⟩ := power_exact few
  rw [timesPower, found, Option.bind_some] at scaled
  rw [found_place scaled, whole, exact]
  apply place_of_ratio steps_in_one_positive Nat.one_pos
  generalize stepsInOne = unit
  ring

theorem over_exact (few : k ≤ 22) (whole : m.steps = stepsInOne * n) (scaled : overPower m k = some r) :
    r.place = placeOf (stepsInOne * n) (10 ^ k) := by
  obtain ⟨p, found, exact⟩ := power_exact few
  rw [overPower, found, Option.bind_some] at scaled
  rw [found_place scaled, whole, exact]
  have positive : 0 < 10 ^ k := Nat.pow_pos (by decide)
  apply place_of_ratio (Nat.mul_pos steps_in_one_positive positive) positive
  generalize stepsInOne = unit
  ring

theorem scaled_zero {e : Int} (zero : m.significand = 0) (scaled : scaled? m e = some r) : r.place = 0 := by
  rw [scaled?] at scaled
  split at scaled
  · exact over_zero zero scaled
  · split at scaled
    · rename_i listed
      obtain ⟨p, found, _⟩ := power_within e.natAbs listed
      have none : m.steps = 0 := by rw [steps, zero, Nat.zero_mul]
      rw [timesPower, found, Option.bind_some, none, Nat.zero_mul] at scaled
      rw [found_place scaled]
      exact place_of_small steps_in_one_positive
    · cases scaled
      exact zero_place zero

end Binary64

namespace Gathered

variable {g : Gathered} {n decimals raised : Nat} {negative : Bool} {x : Binary64}

theorem Gathers.read_zero (known : Gathers g 0 decimals raised) (e : Int) (read : g.toBinary64? negative e = some x) :
    x = .zero negative := by
  obtain ⟨r, scaled, rfl⟩ := Option.map_eq_some_iff.mp read
  obtain ⟨m, rounded, scaled⟩ := Option.bind_eq_some_iff.mp scaled
  have place := found_place rounded
  rw [(known.exact (by decide)).1, Nat.mul_zero, place_of_small (by decide), Magnitude.place] at place
  have none := Binary64.scaled_zero (by omega) scaled
  exact Binary64.sign_place_injective (p := (negative, 0)) (by rw [Binary64.place?, none]) rfl

theorem Gathers.read_exact (known : Gathers g n decimals raised) (few : n ≤ 2 ^ 53) (e : Int)
    (near : (e - decimals).natAbs ≤ 22) (read : g.toBinary64? negative e = some x) :
    x = Numeral.nearest ⟨negative, n, e - decimals⟩ := by
  obtain ⟨r, scaled, rfl⟩ := Option.map_eq_some_iff.mp read
  obtain ⟨m, rounded, scaled⟩ := Option.bind_eq_some_iff.mp scaled
  obtain ⟨all, none⟩ := known.exact (Nat.lt_of_le_of_lt few (by decide))
  have exponent := known.exponent
  rw [all] at rounded
  have whole := significand_exact few rounded
  have exact : r.place = placeOf (stepsInOne * Numeral.num ⟨negative, n, e - decimals⟩)
      (Numeral.den ⟨negative, n, e - decimals⟩) := by
    rw [Numeral.num, Numeral.den]
    simp only
    rw [Binary64.scaled?] at scaled
    split at scaled
    · rename_i below
      have up : (e - decimals).toNat = 0 := by omega
      have down : (-(e - decimals)).toNat = (g.exponent + e).natAbs := by omega
      have one : n * 10 ^ 0 = n := Nat.mul_one n
      rw [Binary64.overTenTo, if_pos (by omega)] at scaled
      rw [Binary64.over_exact (by omega) whole scaled, up, down, one]
    · rename_i above
      have up : (e - decimals).toNat = (g.exponent + e).natAbs := by omega
      have down : (-(e - decimals)).toNat = 0 := by omega
      have one : 10 ^ 0 = 1 := rfl
      rw [if_pos (by omega)] at scaled
      rw [Binary64.times_exact (by omega) whole scaled, up, down, one]
  have inside := r.place_lt_last
  have nearest := Numeral.nearest_place ⟨negative, n, e - decimals⟩
  rw [← exact, Nat.min_eq_right (Nat.le_of_lt inside)] at nearest
  exact Binary64.sign_place_injective rfl nearest

end Gathered

end TablePeek
