import TablePeek.Proofs.Number.Numeral

set_option autoImplicit false

namespace TablePeek

section Middle

variable {a b q : ℚ}

theorem below_middle (near : |a - q| ≤ |b - q|) (less : a < b) : 2 * q ≤ a + b := by
  by_contra past
  rw [abs_of_neg (show a - q < 0 by linarith)] at near
  rcases abs_cases (b - q) with ⟨same, _⟩ | ⟨same, _⟩ <;> linarith

theorem above_middle (near : |a - q| ≤ |b - q|) (less : b < a) : a + b ≤ 2 * q := by
  by_contra before
  rw [abs_of_pos (show 0 < a - q by linarith)] at near
  rcases abs_cases (b - q) with ⟨same, _⟩ | ⟨same, _⟩ <;> linarith

theorem middle_apart (middle : 2 * q = a + b) : |b - q| = |a - q| := by
  have same : b - q = -(a - q) := by linarith
  rw [same, abs_neg]

end Middle

namespace Magnitude

section Halfway

variable (m : Magnitude)

theorem steps_cast : (m.steps : ℚ) = m.significand * 2 ^ m.shift := by rw [steps, Nat.cast_mul, Nat.cast_pow, Nat.cast_ofNat]

theorem place_cast : (m.place : ℚ) = 2 ^ 52 * m.shift + m.significand := by
  rw [place]
  push_cast
  norm_num

theorem place_even : m.place % 2 = m.significand % 2 := by
  rw [place]
  omega

-- The lower neighbour of a power of two is only half as far as the upper one.
def IsPower : Prop := m.significand = 0x10000000000000 ∧ m.shift ≠ 0

instance : Decidable m.IsPower := inferInstanceAs (Decidable (_ ∧ _))

def low : ℚ := m.steps - 2 ^ m.shift / (if m.IsPower then 4 else 2)

def high : ℚ := m.steps + 2 ^ m.shift / 2

theorem high_dropped : Dropped m.high m.shift := by
  have unit : (0 : ℚ) < 2 ^ m.shift := by positivity
  rw [high, steps_cast]
  constructor
  · have few : (m.significand : ℚ) + 1 ≤ 2 ^ 53 := by exact_mod_cast m.significand_lt
    have := mul_le_mul_of_nonneg_right few unit.le
    linarith
  · intro some
    have filled : (2 : ℚ) ^ 52 ≤ m.significand := by exact_mod_cast m.normal.resolve_left some
    have := mul_le_mul_of_nonneg_right filled unit.le
    linarith

theorem high_position : position m.high m.shift = m.place + 1 / 2 := by
  have unit : (2 : ℚ) ^ m.shift ≠ 0 := by positivity
  rw [position, high, steps_cast, place_cast]
  field_simp
  ring

theorem low_position : ∃ s, Dropped m.low s ∧ position m.low s = m.place - 1 / 2 := by
  by_cases power : m.IsPower
  · obtain ⟨t, shift⟩ := Nat.exists_eq_succ_of_ne_zero power.2
    have unit : (0 : ℚ) < 2 ^ t := by positivity
    have below : m.low = (2 ^ 53 - 1 / 2) * 2 ^ t := by
      rw [low, if_pos power, steps_cast, power.1, shift, pow_succ]
      push_cast
      ring
    rw [below]
    refine ⟨t, ⟨?_, fun _ => ?_⟩, ?_⟩
    · exact mul_lt_mul_of_pos_right (by norm_num) unit
    · exact mul_le_mul_of_nonneg_right (by norm_num) unit.le
    · rw [position, mul_div_cancel_right₀ _ unit.ne', place_cast, power.1, shift]
      push_cast
      ring
  · have unit : (0 : ℚ) < 2 ^ m.shift := by positivity
    have below : m.low = (m.significand - 1 / 2) * 2 ^ m.shift := by
      rw [low, if_neg power, steps_cast]
      ring
    rw [below]
    refine ⟨m.shift, ⟨?_, fun some => ?_⟩, ?_⟩
    · have few : (m.significand : ℚ) < 2 ^ 53 := by exact_mod_cast m.significand_lt
      exact mul_lt_mul_of_pos_right (by linarith) unit
    · have filled : 0x10000000000000 + 1 ≤ m.significand := by
        have := m.normal.resolve_left some
        have : m.significand ≠ 0x10000000000000 := fun same => power ⟨same, some⟩
        omega
      have bound : (2 : ℚ) ^ 52 + 1 ≤ m.significand := by exact_mod_cast filled
      exact mul_le_mul_of_nonneg_right (by linarith) unit.le
    · rw [position, mul_div_cancel_right₀ _ unit.ne', place_cast]
      ring

end Halfway

variable {m : Magnitude} {num den : Nat} {x y : ℚ} {s t : Nat}

theorem place_of_tie (num : Nat) (positive : 0 < den)
    (half : |(placeOf num den : ℚ) - position (num / den) (excess num den)| = 1 / 2) : placeOf num den % 2 = 0 := by
  have units : 0 < den * 2 ^ excess num den := Nat.mul_pos positive (Nat.two_pow_pos _)
  have unit : (0 : ℚ) < den * 2 ^ excess num den := by positivity
  have apart : (placeOf num den : ℚ) - position (num / den) (excess num den) =
      (kept num den * (den * 2 ^ excess num den) - num) / (den * 2 ^ excess num den) := by
    rw [placeOf, position]
    push_cast
    field_simp
    ring
  rw [apart, abs_div, abs_of_pos unit, div_eq_iff unit.ne'] at half
  have twice : 2 * offBy num (den * 2 ^ excess num den) (kept num den) = den * 2 ^ excess num den := by
    have cast : ((2 * offBy num (den * 2 ^ excess num den) (kept num den) : Nat) : ℚ) =
        (den * 2 ^ excess num den : Nat) := by
      rw [offBy]
      push_cast [Nat.cast_natAbs]
      linarith
    exact_mod_cast cast
  have even : kept num den % 2 = 0 := by
    unfold kept at twice ⊢
    generalize den * 2 ^ excess num den = d at units twice ⊢
    rw [off_by_div_nearest units] at twice
    have rest := Nat.mod_lt num units
    rw [divNearest]
    split <;> omega
  rw [placeOf]
  omega

theorem rounded_below {n : Nat} (num : Nat) (positive : 0 < den)
    (above : (n : ℚ) - 1 / 2 ≤ position (num / den) (excess num den)) (less : placeOf num den < n) :
    position (num / den) (excess num den) = n - 1 / 2 ∧ placeOf num den + 1 = n ∧ placeOf num den % 2 = 0 := by
  have near := abs_le.mp (place_near num positive)
  have gap : (placeOf num den : ℚ) + 1 ≤ n := by exact_mod_cast less
  have exact : (placeOf num den : ℚ) + 1 = n := by linarith
  refine ⟨by linarith, by exact_mod_cast exact, place_of_tie num positive ?_⟩
  rw [show (placeOf num den : ℚ) - position (num / den) (excess num den) = -(1 / 2) by linarith, abs_neg,
    abs_of_pos (by norm_num)]

theorem rounded_above {n : Nat} (num : Nat) (positive : 0 < den)
    (below : position (num / den) (excess num den) ≤ n + 1 / 2) (more : n < placeOf num den) :
    position (num / den) (excess num den) = n + 1 / 2 ∧ n + 1 = placeOf num den ∧ placeOf num den % 2 = 0 := by
  have near := abs_le.mp (place_near num positive)
  have gap : (n : ℚ) + 1 ≤ placeOf num den := by exact_mod_cast more
  have exact : (n : ℚ) + 1 = placeOf num den := by linarith
  refine ⟨by linarith, by exact_mod_cast exact, place_of_tie num positive ?_⟩
  rw [show (placeOf num den : ℚ) - position (num / den) (excess num den) = 1 / 2 by linarith, abs_of_pos (by norm_num)]

structure Around (m : Magnitude) (y : ℚ) : Prop where
  low : m.low ≤ y
  high : y ≤ m.high
  even : y = m.low ∨ y = m.high → m.significand % 2 = 0

theorem place_of_around (positive : 0 < den) (around : m.Around ((num : ℚ) / den)) : placeOf num den = m.place := by
  obtain ⟨low, high, even⟩ := around
  have dropped := excess_dropped num positive
  have parity := m.place_even
  rcases Nat.lt_trichotomy (placeOf num den) m.place with less | same | more
  · obtain ⟨s, lowDropped, lowPosition⟩ := m.low_position
    have above := position_mono lowDropped dropped low
    rw [lowPosition] at above
    obtain ⟨middle, next, tie⟩ := rounded_below num positive above less
    -- Only the half-way point has that position, and then two neighbours would both be even.
    have onLow : (num : ℚ) / den = m.low := by
      by_contra other
      have strict := position_strict lowDropped dropped (lt_of_le_of_ne low (Ne.symm other))
      linarith
    have := even (.inl onLow)
    omega
  · exact same
  · have below := position_mono dropped m.high_dropped high
    rw [high_position] at below
    obtain ⟨middle, next, tie⟩ := rounded_above num positive below more
    have onHigh : (num : ℚ) / den = m.high := by
      by_contra other
      have strict := position_strict dropped m.high_dropped (lt_of_le_of_ne high other)
      rw [high_position] at strict
      linarith
    have := even (.inr onHigh)
    omega

def largest : Magnitude := ⟨0x1FFFFFFFFFFFFF, 2045, by decide, .inr (by decide), by decide⟩

theorem past_largest_iff (num : Nat) (positive : 0 < den) :
    lastPlace ≤ placeOf num den ↔ largest.high ≤ (num : ℚ) / den := by
  have dropped := excess_dropped num positive
  have near := abs_le.mp (place_near num positive)
  have last : (largest.place : ℚ) + 1 = lastPlace := by norm_num [place, largest, lastPlace]
  constructor
  · intro past
    by_contra inside
    have below := position_strict dropped largest.high_dropped (not_le.mp inside)
    rw [high_position] at below
    have : (lastPlace : ℚ) ≤ placeOf num den := by exact_mod_cast past
    linarith
  · intro past
    have above := position_mono largest.high_dropped dropped past
    rw [high_position] at above
    by_contra inside
    obtain ⟨_, next, tie⟩ := rounded_below num positive (by linarith) (Nat.not_le.mp inside)
    rw [lastPlace] at next
    omega

section Neighbours

theorem upper_neighbour (m : Magnitude) : m = largest ∨ ∃ o : Magnitude, (o.steps : ℚ) = m.steps + 2 ^ m.shift := by
  by_cases room : m.significand + 1 < 0x20000000000000
  · refine .inr ⟨⟨m.significand + 1, m.shift, room, m.normal.imp id (fun le => by omega), m.shift_le⟩, ?_⟩
    rw [steps_cast, steps_cast]
    push_cast
    ring
  · have full : m.significand = 0x1FFFFFFFFFFFFF := by
      have := m.significand_lt
      omega
    by_cases top : m.shift = 2045
    · left
      obtain ⟨a, s, _, _, _⟩ := m
      obtain rfl : a = _ := full
      obtain rfl : s = _ := top
      rfl
    · have := m.shift_le
      refine .inr ⟨⟨0x10000000000000, m.shift + 1, by decide, .inr (Nat.le_refl _), by omega⟩, ?_⟩
      rw [steps_cast, steps_cast, full, pow_succ]
      push_cast
      ring

theorem lower_neighbour (m : Magnitude) : m.significand = 0 ∨
    ∃ o : Magnitude, (o.steps : ℚ) = m.steps - 2 ^ m.shift / (if m.IsPower then 2 else 1) := by
  by_cases power : m.IsPower
  · obtain ⟨t, shift⟩ := Nat.exists_eq_succ_of_ne_zero power.2
    have := m.shift_le
    refine .inr ⟨⟨0x1FFFFFFFFFFFFF, t, by decide, .inr (by decide), by omega⟩, ?_⟩
    rw [if_pos power, steps_cast, steps_cast, power.1, shift, pow_succ]
    push_cast
    ring
  · by_cases zero : m.significand = 0
    · exact .inl zero
    · have small := m.significand_lt
      have normal : m.shift = 0 ∨ 0x10000000000000 ≤ m.significand - 1 := by
        apply or_iff_not_imp_left.mpr
        intro some
        have := m.normal.resolve_left some
        have : m.significand ≠ 0x10000000000000 := fun same => power ⟨same, some⟩
        omega
      refine .inr ⟨⟨m.significand - 1, m.shift, by omega, normal, m.shift_le⟩, ?_⟩
      rw [if_neg power, steps_cast, steps_cast, Nat.cast_sub (Nat.pos_of_ne_zero zero)]
      push_cast
      ring

end Neighbours

theorem value_steps (m : Magnitude) : m.value * stepsInOne = m.steps := by
  rw [value, div_mul_cancel₀ _ steps_in_one_cast.ne']

theorem value_apart (m : Magnitude) (q : ℚ) : |(m.steps : ℚ) - q * stepsInOne| = |m.value - q| * stepsInOne := by
  rw [← value_steps, ← sub_mul, abs_mul, abs_of_pos steps_in_one_cast]

namespace Nearest

variable {q : ℚ}

theorem least_steps (nearest : m.Nearest q) (o : Magnitude) :
    |(m.steps : ℚ) - q * stepsInOne| ≤ |(o.steps : ℚ) - q * stepsInOne| := by
  rw [value_apart, value_apart]
  exact mul_le_mul_of_nonneg_right (nearest.least o) steps_in_one_cast.le

theorem even_of_middle (nearest : m.Nearest q) (o : Magnitude) (other : (o.steps : ℚ) ≠ m.steps)
    (middle : 2 * (q * stepsInOne) = m.steps + o.steps) : m.significand % 2 = 0 := by
  refine nearest.even o (fun same => other (by rw [steps_of_value same])) ?_
  have apart := middle_apart middle
  rwa [value_apart, value_apart, mul_left_inj' steps_in_one_cast.ne'] at apart

theorem below_high (nearest : m.Nearest q) (inside : q * stepsInOne < largest.high) :
    q * stepsInOne ≤ m.high ∧ (q * stepsInOne = m.high → m.significand % 2 = 0) := by
  have unit : (0 : ℚ) < 2 ^ m.shift := by positivity
  rcases m.upper_neighbour with rfl | ⟨o, next⟩
  · exact ⟨inside.le, fun on => absurd on inside.ne⟩
  · have less : (m.steps : ℚ) < o.steps := by linarith
    have middle := below_middle (nearest.least_steps o) less
    rw [high]
    exact ⟨by linarith, fun on => nearest.even_of_middle o less.ne' (by linarith)⟩

theorem above_low (nearest : m.Nearest q) (nonneg : 0 ≤ q) :
    m.low ≤ q * stepsInOne ∧ (q * stepsInOne = m.low → m.significand % 2 = 0) := by
  have unit : (0 : ℚ) < 2 ^ m.shift := by positivity
  rcases m.lower_neighbour with zero | ⟨o, next⟩
  · have negative : m.low < 0 := by
      have ordinary : ¬ m.IsPower := fun power => by
        rw [IsPower, zero] at power
        exact absurd power.1 (by decide)
      rw [low, if_neg ordinary, steps_cast, zero, Nat.cast_zero, zero_mul]
      linarith
    have := mul_nonneg nonneg steps_in_one_cast.le
    exact ⟨by linarith, fun on => absurd on (by linarith)⟩
  · have less : (o.steps : ℚ) < m.steps := by
      rw [next]
      split <;> linarith
    have middle := above_middle (nearest.least_steps o) less
    rw [low]
    by_cases power : m.IsPower
    · rw [if_pos power] at next ⊢
      exact ⟨by linarith, fun on => nearest.even_of_middle o less.ne (by linarith)⟩
    · rw [if_neg power] at next ⊢
      exact ⟨by linarith, fun on => nearest.even_of_middle o less.ne (by linarith)⟩

theorem around (nearest : m.Nearest q) (nonneg : 0 ≤ q) (inside : q * stepsInOne < largest.high) :
    m.Around (q * stepsInOne) := by
  obtain ⟨high, onHigh⟩ := nearest.below_high inside
  obtain ⟨low, onLow⟩ := nearest.above_low nonneg
  exact ⟨low, high, fun on => on.elim onLow onHigh⟩

end Nearest

end Magnitude

open Magnitude

namespace Binary64

-- To the nearest magnitude, to the even one of two that are equally near, and from half a step past the largest one
-- on to the infinity. The sign is kept, also that of a zero.
inductive Rounded (negative : Bool) (q : ℚ) : Binary64 → Prop where
  | finite (m : Magnitude) (inside : q < 2 ^ 1024 - 2 ^ 970) (nearest : m.Nearest q) :
    Rounded negative q (.finite negative m)
  | infinite (past : 2 ^ 1024 - 2 ^ 970 ≤ q) : Rounded negative q (.infinity negative)

theorem largest_high : largest.high = (2 ^ 1024 - 2 ^ 970) * stepsInOne := by
  have top : (2 : ℚ) ^ 2045 = 2 * 2 ^ 970 * 2 ^ 1074 := by rw [← pow_succ', ← pow_add]
  have next : (2 : ℚ) ^ 1024 = 2 ^ 54 * 2 ^ 970 := by rw [← pow_add]
  rw [high, steps_cast, largest, steps_in_one_power]
  simp only [top, next]
  generalize (2 : ℚ) ^ 970 = a
  generalize (2 : ℚ) ^ 1074 = b
  ring

variable {negative : Bool} {num den : Nat} {x : Binary64} {m : Magnitude}

theorem ratio_steps (num den : Nat) : ((stepsInOne * num : Nat) : ℚ) / den = num / den * stepsInOne := by
  rw [Nat.cast_mul]
  ring

theorem past_iff (num : Nat) (positive : 0 < den) :
    lastPlace ≤ placeOf (stepsInOne * num) den ↔ 2 ^ 1024 - 2 ^ 970 ≤ (num : ℚ) / den := by
  rw [past_largest_iff _ positive, ratio_steps, largest_high]
  exact mul_le_mul_iff_left₀ steps_in_one_cast

theorem of_ratio_rounded (negative : Bool) (num : Nat) (positive : 0 < den) :
    Rounded negative ((num : ℚ) / den) (ofRatio negative num den) := by
  have past := past_iff num positive
  rcases nearest_cases (stepsInOne * num) den with ⟨m, found, place, _⟩ | ⟨none, last⟩
  · rw [of_ratio_found negative found]
    refine .finite m (not_le.mp fun large => ?_) (found_nearest positive found)
    have inside := m.place_lt_last
    have := past.mpr large
    omega
  · have same : ofRatio negative num den = .infinity negative := by
      apply sign_place_injective (of_ratio_place negative num den)
      rw [Nat.min_eq_left last]
      rfl
    rw [same]
    exact .infinite (past.mp last)

theorem of_ratio_around (positive : 0 < den) (around : m.Around ((num : ℚ) / den * stepsInOne)) :
    ofRatio negative num den = .finite negative m := by
  rw [← ratio_steps] at around
  apply sign_place_injective (of_ratio_place negative num den)
  rw [place_of_around positive around, Nat.min_eq_right m.place_lt_last.le]
  rfl

theorem rounded_of_ratio (positive : 0 < den) (rounded : Rounded negative ((num : ℚ) / den) x) :
    x = ofRatio negative num den := by
  cases rounded with
  | infinite past =>
    apply sign_place_injective rfl
    rw [of_ratio_place, Nat.min_eq_left ((past_iff num positive).mpr past)]
  | finite m inside nearest =>
    refine (of_ratio_around positive (nearest.around (by positivity) ?_)).symm
    rw [largest_high]
    exact mul_lt_mul_of_pos_right inside steps_in_one_cast

theorem rounded_iff (positive : 0 < den) : Rounded negative ((num : ℚ) / den) x ↔ x = ofRatio negative num den :=
  ⟨rounded_of_ratio positive, fun same => same ▸ of_ratio_rounded negative num positive⟩

end Binary64

end TablePeek
