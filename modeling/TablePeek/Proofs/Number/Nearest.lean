import Mathlib.Algebra.Order.Field.Rat
import Mathlib.Tactic.Linarith
import Mathlib.Tactic.Ring
import Mathlib.Tactic.Positivity
import Mathlib.Tactic.FieldSimp
import TablePeek.Number.Binary64

set_option autoImplicit false

namespace TablePeek

section DivNearest

def offBy (num den k : Nat) : Nat := ((k * den : Nat) - num : Int).natAbs

variable {num den : Nat}

theorem off_by_below (k : Nat) (below : k ≤ num / den) :
    offBy num den k = num % den + den * (num / den - k) := by
  have whole := Nat.div_add_mod num den
  have parts : den * (num / den) = k * den + den * (num / den - k) := by
    rw [Nat.mul_comm k den, ← Nat.mul_add, Nat.add_sub_cancel' below]
  rw [offBy]
  omega

theorem off_by_above (k : Nat) (positive : 0 < den) (above : num / den < k) :
    offBy num den k = den - num % den + den * (k - (num / den + 1)) := by
  have whole := Nat.div_add_mod num den
  have rest := Nat.mod_lt num positive
  have parts : k * den = den * (num / den) + den + den * (k - (num / den + 1)) := by
    rw [← Nat.mul_succ, ← Nat.mul_add, Nat.add_sub_cancel' above, Nat.mul_comm]
  rw [offBy]
  omega

theorem off_by_div_nearest (positive : 0 < den) :
    offBy num den (divNearest num den) = min (num % den) (den - num % den) := by
  have rest := Nat.mod_lt num positive
  rw [divNearest]
  split
  · rw [off_by_below _ (Nat.le_refl _), Nat.sub_self, Nat.mul_zero]
    omega
  · rw [off_by_above _ positive (Nat.lt_succ_self _), Nat.sub_self, Nat.mul_zero]
    omega

theorem div_nearest_half (positive : 0 < den) : 2 * offBy num den (divNearest num den) ≤ den := by
  rw [off_by_div_nearest positive]
  omega

theorem div_nearest_least (positive : 0 < den) (k : Nat) :
    offBy num den (divNearest num den) ≤ offBy num den k := by
  rw [off_by_div_nearest positive]
  rcases Nat.lt_or_ge (num / den) k with above | below
  · rw [off_by_above k positive above]
    omega
  · rw [off_by_below k below]
    omega

-- Another quotient is as near only at a half, and then this one is even.
theorem div_nearest_even (positive : 0 < den) (k : Nat) (other : k ≠ divNearest num den)
    (tie : offBy num den k = offBy num den (divNearest num den)) : divNearest num den % 2 = 0 := by
  have rest := Nat.mod_lt num positive
  have further : ∀ d, d ≠ 0 → den ≤ den * d := fun d nonzero =>
    Nat.le_mul_of_pos_right den (Nat.pos_of_ne_zero nonzero)
  unfold divNearest at other tie ⊢
  split at other
  · rename_i down
    rw [if_pos down] at tie ⊢
    rw [off_by_below _ (Nat.le_refl _), Nat.sub_self, Nat.mul_zero] at tie
    rcases Nat.lt_or_ge (num / den) k with above | below
    · rw [off_by_above k positive above] at tie
      omega
    · rw [off_by_below k below] at tie
      have := further (num / den - k) (by omega)
      omega
  · rename_i up
    rw [if_neg up] at tie ⊢
    rw [off_by_above _ positive (Nat.lt_succ_self _), Nat.sub_self, Nat.mul_zero] at tie
    rcases Nat.lt_or_ge (num / den) k with above | below
    · rw [off_by_above k positive above] at tie
      have := further (k - (num / den + 1)) (by omega)
      omega
    · rw [off_by_below k below] at tie
      omega

end DivNearest

namespace Magnitude

-- The places of magnitudes in order, from zero on; the last one is that of the infinity.
def place (m : Magnitude) : Nat := 0x10000000000000 * m.shift + m.significand

def lastPlace : Nat := 0x7FF0000000000000

variable {num den : Nat}

theorem place_lt_last (m : Magnitude) : m.place < lastPlace := by
  have significand := m.significand_lt
  have shift := m.shift_le
  rw [place, lastPlace]
  omega

-- What is kept of a ratio of steps: at most 53 bits, or the next power of two.
def kept (num den : Nat) : Nat := divNearest num (den * 2 ^ excess num den)

def placeOf (num den : Nat) : Nat := 0x10000000000000 * excess num den + kept num den

theorem quotient_lt (num den : Nat) : num / (den * 2 ^ excess num den) < 2 ^ 53 := by
  rw [← Nat.div_div_eq_div_mul, Nat.div_lt_iff_lt_mul (Nat.two_pow_pos _), ← Nat.pow_add]
  by_cases zero : num / den = 0
  · rw [zero]
    exact Nat.two_pow_pos _
  · exact Nat.lt_of_lt_of_le Nat.lt_log2_self (Nat.pow_le_pow_right (by decide) (by unfold excess; omega))

theorem kept_le (num den : Nat) : kept num den ≤ 0x20000000000000 :=
  Nat.le_trans (div_nearest_le _ _) (quotient_lt num den)

theorem nearest_cases (num den : Nat) :
    (∃ m, nearest? num den = some m ∧ m.place = placeOf num den ∧
      m.steps = kept num den * 2 ^ excess num den ∧ (kept num den % 2 = 0 → m.significand % 2 = 0)) ∨
    nearest? num den = none ∧ lastPlace ≤ placeOf num den := by
  have most := kept_le num den
  have least : excess num den ≠ 0 → 0x10000000000000 ≤ kept num den := significand_le_div_nearest
  rw [nearest?, placeOf, lastPlace]
  by_cases fits : kept num den < 0x20000000000000
  · by_cases inside : excess num den ≤ 2045
    · left
      exact ⟨_, (dif_pos fits).trans (dif_pos inside), rfl, rfl, id⟩
    · right
      have := least (by omega)
      exact ⟨(dif_pos fits).trans (dif_neg inside), by omega⟩
  · have carry : kept num den = 0x20000000000000 := Nat.le_antisymm most (Nat.le_of_not_lt fits)
    by_cases inside : excess num den + 1 ≤ 2045
    · left
      refine ⟨_, (dif_neg fits).trans (dif_pos inside), ?_, ?_, fun _ => show 0x10000000000000 % 2 = 0 by decide⟩
      · rw [place]
        simp only
        omega
      · rw [steps, Nat.pow_add, carry]
        simp only [show 2 ^ 1 = 2 from rfl]
        omega
    · right
      exact ⟨(dif_neg fits).trans (dif_neg inside), by omega⟩

theorem off_by_scaled (num den unit k : Nat) : offBy num den (k * unit) = offBy num (den * unit) k := by
  rw [offBy, offBy, Nat.mul_assoc, Nat.mul_comm unit den]

-- A magnitude is a whole number of the units that were kept, or lies below all that have that many bits.
theorem steps_cases (o : Magnitude) (num den : Nat) :
    (∃ k, o.steps = k * 2 ^ excess num den) ∨
      o.steps < 2 ^ (excess num den + 52) ∧ excess num den ≠ 0 := by
  by_cases fine : excess num den ≤ o.shift
  · refine .inl ⟨o.significand * 2 ^ (o.shift - excess num den), ?_⟩
    rw [Nat.mul_assoc, ← Nat.pow_add, Nat.sub_add_cancel fine, steps]
  · have coarse : 2 ^ (o.shift + 53) ≤ 2 ^ (excess num den + 52) :=
      Nat.pow_le_pow_right (by decide) (by omega)
    refine .inr ⟨Nat.lt_of_lt_of_le ?_ coarse, by omega⟩
    rw [Nat.add_comm, Nat.pow_add]
    exact Nat.mul_lt_mul_of_pos_right o.significand_lt (Nat.two_pow_pos _)

theorem below_is_farther (o : Magnitude) (positive : 0 < den) (low : o.steps < 2 ^ (excess num den + 52))
    (dropped : excess num den ≠ 0) :
    offBy num (den * 2 ^ excess num den) (kept num den) < offBy num den o.steps := by
  have whole : 2 ^ (excess num den + 52) * den ≤ num :=
    Nat.le_trans (Nat.mul_le_mul_right den (pow_excess_le dropped)) (Nat.div_mul_le_self num den)
  have strict : o.steps * den < 2 ^ (excess num den + 52) * den := Nat.mul_lt_mul_of_pos_right low positive
  apply Nat.lt_of_le_of_lt (div_nearest_least (Nat.mul_pos positive (Nat.two_pow_pos _)) (2 ^ 52))
  rw [← off_by_scaled, ← Nat.pow_add, Nat.add_comm 52, offBy, offBy]
  omega

variable {m : Magnitude}

theorem found_steps (found : nearest? num den = some m) : m.steps = kept num den * 2 ^ excess num den ∧
    (kept num den % 2 = 0 → m.significand % 2 = 0) := by
  rcases nearest_cases num den with ⟨n, same, _, steps, even⟩ | ⟨none, _⟩
  · obtain rfl := Option.some.inj (same.symm.trans found)
    exact ⟨steps, even⟩
  · rw [none] at found
    cases found

theorem found_off_by (found : nearest? num den = some m) :
    offBy num den m.steps = offBy num (den * 2 ^ excess num den) (kept num den) := by
  rw [(found_steps found).1, off_by_scaled]

theorem found_least (positive : 0 < den) (found : nearest? num den = some m) (o : Magnitude) :
    offBy num den m.steps ≤ offBy num den o.steps := by
  rw [found_off_by found]
  rcases steps_cases o num den with ⟨k, whole⟩ | ⟨low, dropped⟩
  · rw [whole, off_by_scaled]
    exact div_nearest_least (Nat.mul_pos positive (Nat.two_pow_pos _)) k
  · exact Nat.le_of_lt (below_is_farther o positive low dropped)

theorem found_even (positive : 0 < den) (found : nearest? num den = some m) (o : Magnitude)
    (other : o.steps ≠ m.steps) (tie : offBy num den o.steps = offBy num den m.steps) : m.significand % 2 = 0 := by
  obtain ⟨steps, even⟩ := found_steps found
  rw [found_off_by found] at tie
  rcases steps_cases o num den with ⟨k, whole⟩ | ⟨low, dropped⟩
  · rw [whole, off_by_scaled] at tie
    refine even (div_nearest_even (Nat.mul_pos positive (Nat.two_pow_pos _)) k ?_ tie)
    rintro rfl
    exact other (whole.trans steps.symm)
  · exact absurd tie (Nat.ne_of_gt (below_is_farther o positive low dropped))

def value (m : Magnitude) : ℚ := m.steps / stepsInOne

structure Nearest (q : ℚ) (m : Magnitude) : Prop where
  least : ∀ o : Magnitude, |m.value - q| ≤ |o.value - q|
  even : ∀ o : Magnitude, o.value ≠ m.value → |o.value - q| = |m.value - q| → m.significand % 2 = 0

theorem off_by_value (positive : 0 < den) (m : Magnitude) :
    |m.value - (num : ℚ) / den| = offBy (stepsInOne * num) den m.steps / (den * stepsInOne) := by
  have dens : (0 : ℚ) < den * stepsInOne := by
    exact_mod_cast Nat.mul_pos positive (steps_in_one_positive)
  have apart : m.value - (num : ℚ) / den =
      (((m.steps * den : Nat) - (stepsInOne * num : Nat) : Int) : ℚ) / (den * stepsInOne) := by
    have unit : ((stepsInOne : Nat) : ℚ) ≠ 0 := by exact_mod_cast Nat.ne_of_gt (steps_in_one_positive)
    have whole : (den : ℚ) ≠ 0 := by exact_mod_cast Nat.ne_of_gt positive
    rw [value]
    field_simp
    push_cast
    ring
  rw [apart, abs_div, abs_of_pos dens, offBy, Nat.cast_natAbs, Int.cast_abs]

theorem found_nearest (positive : 0 < den) (found : nearest? (stepsInOne * num) den = some m) :
    m.Nearest ((num : ℚ) / den) := by
  have dens : (0 : ℚ) < den * stepsInOne := by
    exact_mod_cast Nat.mul_pos positive (steps_in_one_positive)
  constructor
  · intro o
    rw [off_by_value positive, off_by_value positive, div_le_div_iff_of_pos_right dens]
    exact_mod_cast found_least positive found o
  · intro o other tie
    rw [off_by_value positive, off_by_value positive, div_left_inj' dens.ne'] at tie
    refine found_even positive found o (fun same => other ?_) (by exact_mod_cast tie)
    rw [value, value, same]

theorem found_of_lt (bits : Nat) (few : bits ≤ 2097) (small : num / den < 2 ^ bits) :
    ∃ m, nearest? num den = some m := by
  have most := kept_le num den
  have dropped : excess num den ≤ 2044 := by
    rw [excess]
    by_cases zero : num / den = 0
    · rw [zero]
      decide
    · have := (Nat.log2_lt zero).mpr small
      omega
  rcases nearest_cases num den with ⟨m, found, _⟩ | ⟨_, past⟩
  · exact ⟨m, found⟩
  · rw [lastPlace, placeOf] at past
    omega

end Magnitude

namespace Binary64

theorem of_ratio_found (negative : Bool) {num den : Nat} {m : Magnitude}
    (found : Magnitude.nearest? (stepsInOne * num) den = some m) : ofRatio negative num den = .finite negative m := by
  unfold ofRatio
  generalize Magnitude.nearest? (stepsInOne * num) den = result at found ⊢
  rw [found]

def NearestTo (i : Int) (x : Binary64) : Prop := ∃ m : Magnitude, x = .finite (decide (i < 0)) m ∧ m.Nearest i.natAbs

theorem steps_in_one_shifted (k : Nat) : stepsInOne * 2 ^ k = 2 ^ (1074 + k) := by rw [stepsInOne, Nat.pow_add]

theorem of_int_found (i : Int) (small : i.natAbs < 2 ^ 64) : ∃ m,
    Magnitude.nearest? (stepsInOne * i.natAbs) 1 = some m ∧ ofInt i = .finite (decide (i < 0)) m := by
  have bound : stepsInOne * i.natAbs / 1 < 2 ^ (1074 + 64) := by
    rw [Nat.div_one, ← steps_in_one_shifted]
    exact Nat.mul_lt_mul_of_pos_left small steps_in_one_positive
  obtain ⟨m, found⟩ := Magnitude.found_of_lt (1074 + 64) (by decide) bound
  exact ⟨m, found, of_ratio_found _ found⟩

theorem of_int_nearest (i : Int) (small : i.natAbs < 2 ^ 64) : NearestTo i (ofInt i) := by
  obtain ⟨m, found, same⟩ := of_int_found i small
  have nearest := Magnitude.found_nearest Nat.one_pos found
  rw [Nat.cast_one, div_one] at nearest
  exact ⟨m, same, nearest⟩

end Binary64

end TablePeek
