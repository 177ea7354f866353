import TablePeek.Proofs.Number.Nearest

set_option autoImplicit false

namespace TablePeek

theorem power_ratio (e : Int) : (10 ^ e.toNat : ℚ) / 10 ^ (-e).toNat = 10 ^ e := by
  rcases Int.le_total 0 e with up | down
  · obtain ⟨k, rfl⟩ := Int.eq_ofNat_of_zero_le up
    simp
  · obtain ⟨k, rfl⟩ := Int.exists_eq_neg_ofNat down
    simp

theorem steps_in_one_power : (stepsInOne : ℚ) = 2 ^ 1074 := by
  rw [stepsInOne]
  generalize 1074 = bits
  exact Nat.cast_pow 2 bits

theorem steps_in_one_cast : (0 : ℚ) < stepsInOne := Nat.cast_pos.mpr steps_in_one_positive

def Within (r x y : ℚ) : Prop := x ≤ r * y ∧ y ≤ r * x

namespace Within

variable {r r' x y x' y' : ℚ}

theorem mono (near : Within r x y) (nonneg : 0 ≤ x) (nonneg' : 0 ≤ y) (wider : r ≤ r') : Within r' x y :=
  ⟨near.1.trans (mul_le_mul_of_nonneg_right wider nonneg'), near.2.trans (mul_le_mul_of_nonneg_right wider nonneg)⟩

theorem trans {z : ℚ} (near : Within r x y) (near' : Within r' y z) (nonneg : 0 ≤ r) (nonneg' : 0 ≤ r') :
    Within (r * r') x z := by
  constructor
  · calc x ≤ r * y := near.1
      _ ≤ r * (r' * z) := mul_le_mul_of_nonneg_left near'.1 nonneg
      _ = r * r' * z := by ring
  · calc z ≤ r' * y := near'.2
      _ ≤ r' * (r * x) := mul_le_mul_of_nonneg_left near.2 nonneg'
      _ = r * r' * x := by ring

theorem positive (near : Within r x y) (ratio : 0 ≤ r) (positive : 0 < y) : 0 < x := by
  by_contra none
  have := mul_nonneg ratio (neg_nonneg.mpr (not_lt.mp none))
  linarith [near.2]

theorem scale (near : Within r x y) {c : ℚ} (nonneg : 0 ≤ c) : Within r (x * c) (y * c) := by
  constructor
  · rw [← mul_assoc]
    exact mul_le_mul_of_nonneg_right near.1 nonneg
  · rw [← mul_assoc]
    exact mul_le_mul_of_nonneg_right near.2 nonneg

theorem inv (near : Within r x y) (positive : 0 < x) (positive' : 0 < y) : Within r x⁻¹ y⁻¹ := by
  constructor
  · rw [← div_eq_mul_inv, le_div_iff₀ positive', ← div_eq_inv_mul, div_le_iff₀ positive]
    exact near.2
  · rw [← div_eq_mul_inv, le_div_iff₀ positive, ← div_eq_inv_mul, div_le_iff₀ positive']
    exact near.1

theorem mul (near : Within r x y) (near' : Within r' x' y') (nonneg : 0 ≤ y) (nonneg' : 0 ≤ x') (ratio : 0 ≤ r)
    (ratio' : 0 ≤ r') : Within (r * r') (x * x') (y * y') := by
  have second := near'.scale nonneg
  rw [mul_comm x', mul_comm y'] at second
  exact (near.scale nonneg').trans second ratio ratio'

theorem div (near : Within r x y) (near' : Within r' x' y') (nonneg : 0 ≤ y) (positive : 0 < x') (positive' : 0 < y')
    (ratio : 0 ≤ r) (ratio' : 0 ≤ r') : Within (r * r') (x / x') (y / y') := by
  rw [div_eq_mul_inv, div_eq_mul_inv]
  exact near.mul (near'.inv positive positive') nonneg (inv_nonneg.mpr positive.le) ratio ratio'

theorem apart (near : Within (1 + r) x y) (nonneg : 0 ≤ r) : |x - y| ≤ r * x ∧ |x - y| ≤ r * y := by
  obtain ⟨first, second⟩ := near
  rcases le_total x y with le | le
  · have := mul_le_mul_of_nonneg_left le nonneg
    rw [abs_of_nonpos (by linarith)]
    constructor <;> linarith
  · have := mul_le_mul_of_nonneg_left le nonneg
    rw [abs_of_nonneg (by linarith)]
    constructor <;> linarith

end Within

def Apart (n a b : Nat) : Prop := a ≤ b + n ∧ b ≤ a + n

instance (n a b : Nat) : Decidable (Apart n a b) := inferInstanceAs (Decidable (_ ∧ _))

theorem Apart.symm {n a b : Nat} (apart : Apart n a b) : Apart n b a := ⟨apart.2, apart.1⟩

theorem Apart.mono {n n' a b : Nat} (apart : Apart n a b) (more : n ≤ n') : Apart n' a b :=
  ⟨Nat.le_trans apart.1 (Nat.add_le_add_left more b), Nat.le_trans apart.2 (Nat.add_le_add_left more a)⟩

theorem Apart.cut {n a b last : Nat} (apart : Apart n a b) (inside : b ≤ last) : Apart n (min last a) b := by
  obtain ⟨below, above⟩ := apart
  constructor <;> omega

namespace Magnitude

structure Dropped (q : ℚ) (s : Nat) : Prop where
  below : q < 2 ^ 53 * 2 ^ s
  filled : s ≠ 0 → 2 ^ 52 * 2 ^ s ≤ q

def position (q : ℚ) (s : Nat) : ℚ := 2 ^ 52 * s + q / 2 ^ s

variable {num den num' den' : Nat} {x y : ℚ} {s t : Nat}

theorem excess_dropped (num : Nat) (positive : 0 < den) : Dropped ((num : ℚ) / den) (excess num den) := by
  have whole : (0 : ℚ) < den := by exact_mod_cast positive
  constructor
  · have below := quotient_lt num den
    rw [Nat.div_lt_iff_lt_mul (Nat.mul_pos positive (Nat.two_pow_pos _))] at below
    have bound : (num : ℚ) < 2 ^ 53 * (den * 2 ^ excess num den) := by exact_mod_cast below
    rw [div_lt_iff₀ whole]
    linarith
  · intro some
    have filled : 2 ^ (excess num den + 52) * den ≤ num :=
      Nat.le_trans (Nat.mul_le_mul_right den (pow_excess_le some)) (Nat.div_mul_le_self num den)
    have bound : (2 ^ (excess num den + 52) : ℚ) * den ≤ num := by exact_mod_cast filled
    rw [pow_add] at bound
    rw [le_div_iff₀ whole]
    linarith

theorem kept_near (num : Nat) (positive : 0 < den) : |(kept num den : ℚ) - num / den / 2 ^ excess num den| ≤ 1 / 2 := by
  have half : 2 * offBy num (den * 2 ^ excess num den) (kept num den) ≤ den * 2 ^ excess num den :=
    div_nearest_half (Nat.mul_pos positive (Nat.two_pow_pos _))
  have unit : (0 : ℚ) < den * 2 ^ excess num den := by positivity
  have apart : (kept num den : ℚ) - num / den / 2 ^ excess num den =
      (kept num den * (den * 2 ^ excess num den) - num) / (den * 2 ^ excess num den) := by
    field_simp
  have bound : 2 * |(kept num den : ℚ) * (den * 2 ^ excess num den) - num| ≤ den * 2 ^ excess num den := by
    have cast : ((2 * offBy num (den * 2 ^ excess num den) (kept num den) : Nat) : ℚ) ≤
        (den * 2 ^ excess num den : Nat) := by exact_mod_cast half
    rw [offBy] at cast
    push_cast [Nat.cast_natAbs] at cast
    exact cast
  rw [apart, abs_div, abs_of_pos unit, div_le_iff₀ unit]
  linarith

theorem place_injective {m o : Magnitude} (same : m.place = o.place) : m = o := by
  obtain ⟨a, s, few, normal, _⟩ := m
  obtain ⟨b, t, few', normal', _⟩ := o
  simp only [place] at same
  have shifts : s = t := by omega
  subst shifts
  have significands : a = b := by omega
  subst significands
  rfl

theorem steps_of_value {m o : Magnitude} (same : m.value = o.value) : m.steps = o.steps := by
  have unit : (stepsInOne : ℚ) ≠ 0 := Nat.cast_ne_zero.mpr (Nat.ne_of_gt (steps_in_one_positive))
  rw [value, value, div_left_inj' unit] at same
  exact Nat.cast_injective same

theorem place_of_scaled {c : Nat} (positive : 0 < c) : placeOf (num * c) (den * c) = placeOf num den := by
  have quotient : num * c / (den * c) = num / den := Nat.mul_div_mul_right num den positive
  have dropped : excess (num * c) (den * c) = excess num den := by rw [excess, quotient, excess]
  have unit : den * c * 2 ^ excess num den = den * 2 ^ excess num den * c := by ring
  have same : ∀ n d : Nat, divNearest (n * c) (d * c) = divNearest n d := by
    intro n d
    have halves : ∀ a b : Nat, (2 * (a * c) < b * c ↔ 2 * a < b) ∧ (2 * (a * c) = b * c ↔ 2 * a = b) := by
      intro a b
      rw [← Nat.mul_assoc]
      exact ⟨Nat.mul_lt_mul_right positive, Nat.mul_left_inj (Nat.ne_of_gt positive)⟩
    simp only [divNearest, Nat.mul_div_mul_right n d positive, Nat.mul_mod_mul_right, halves]
  rw [placeOf, placeOf, kept, kept, dropped, unit, same]

theorem place_of_ratio (positive : 0 < den) (positive' : 0 < den') (same : num * den' = num' * den) :
    placeOf num den = placeOf num' den' := by
  rw [← place_of_scaled positive', same, Nat.mul_comm den, place_of_scaled positive]

theorem place_of_small (small : 2 * num < den) : placeOf num den = 0 := by
  have quotient : num / den = 0 := Nat.div_eq_of_lt (by omega)
  have rest : num % den = num := Nat.mod_eq_of_lt (by omega)
  have dropped : excess num den = 0 := by
    rw [excess, quotient]
    rfl
  have unit : den * 2 ^ 0 = den := Nat.mul_one den
  rw [placeOf, kept, dropped, unit, divNearest, quotient, rest, if_pos (.inl small)]

theorem place_of_large (bits : Nat) (many : 2098 ≤ bits) (positive : 0 < den) (large : 2 ^ bits * den ≤ num) :
    lastPlace ≤ placeOf num den := by
  have quotient : 2 ^ bits ≤ num / den := (Nat.le_div_iff_mul_le positive).mpr large
  have nonzero : num / den ≠ 0 := Nat.ne_of_gt (Nat.lt_of_lt_of_le (Nat.two_pow_pos bits) quotient)
  have dropped : 2046 ≤ excess num den := by
    have := (Nat.le_log2 nonzero).mpr quotient
    rw [excess]
    omega
  have filled : 0x10000000000000 ≤ kept num den := significand_le_div_nearest (by omega)
  rw [lastPlace, placeOf]
  omega

section Found

variable {m : Magnitude}

theorem found_place (found : nearest? num den = some m) : m.place = placeOf num den := by
  rcases nearest_cases num den with ⟨o, same, place, _⟩ | ⟨none, _⟩
  · rw [found] at same
    rwa [Option.some.inj same]
  · rw [found] at none
    cases none

theorem found_close (positive : 0 < den) (found : nearest? num den = some m) :
    |(m.steps : ℚ) - num / den| ≤ 2 ^ excess num den / 2 := by
  have near := kept_near num positive
  have unit : (0 : ℚ) < 2 ^ excess num den := by positivity
  have scaled : (m.steps : ℚ) - num / den =
      (kept num den - num / den / 2 ^ excess num den) * 2 ^ excess num den := by
    rw [(found_steps found).1, Nat.cast_mul, Nat.cast_pow, Nat.cast_ofNat]
    field_simp
  rw [scaled, abs_mul, abs_of_pos unit]
  have := mul_le_mul_of_nonneg_right near unit.le
  linarith

theorem found_within (positive : 0 < den) (found : nearest? num den = some m) (normal : (2 : ℚ) ^ 52 ≤ num / den) :
    Within (1 + 1 / 2 ^ 53) m.steps (num / den) := by
  have unit : (0 : ℚ) < 2 ^ excess num den := by positivity
  have filled : 2 ^ 52 * 2 ^ excess num den ≤ (num : ℚ) / den := by
    by_cases none : excess num den = 0
    · rw [none, pow_zero, mul_one]
      exact normal
    · exact (excess_dropped _ positive).filled none
  have close := abs_le.mp (found_close positive found)
  have left : 2 ^ 52 * 2 ^ excess num den ≤ (m.steps : ℚ) := by
    have near := abs_le.mp (kept_near num positive)
    have quotient : (2 : ℚ) ^ 52 ≤ num / den / 2 ^ excess num den := by
      rw [le_div_iff₀ unit]
      exact filled
    have whole : 2 ^ 52 ≤ kept num den := by
      have : ((2 ^ 52 : Nat) : ℚ) < kept num den + 1 := by
        push_cast
        linarith
      have : 2 ^ 52 < kept num den + 1 := by exact_mod_cast this
      omega
    have bound : (2 : ℚ) ^ 52 ≤ kept num den := by exact_mod_cast whole
    rw [(found_steps found).1, Nat.cast_mul, Nat.cast_pow, Nat.cast_ofNat]
    exact mul_le_mul_of_nonneg_right bound unit.le
  constructor <;> linarith

end Found

theorem place_near (num : Nat) (positive : 0 < den) :
    |(placeOf num den : ℚ) - position (num / den) (excess num den)| ≤ 1 / 2 := by
  have near := kept_near num positive
  have same : (placeOf num den : ℚ) - position (num / den) (excess num den) =
      kept num den - num / den / 2 ^ excess num den := by
    rw [placeOf, position]
    push_cast
    ring
  rwa [same]

-- A position is the least of the lines that go on with fewer bits dropped than it drops.
theorem position_below_line (dropped : Dropped y t) (fewer : s ≤ t) : position y t ≤ 2 ^ 52 * s + y / 2 ^ s := by
  obtain ⟨d, rfl⟩ := Nat.exists_eq_add_of_le fewer
  by_cases none : d = 0
  · rw [none]
    exact le_rfl
  · have filled := dropped.filled (by omega)
    have growth : (d : ℚ) + 1 ≤ 2 ^ d := by exact_mod_cast Nat.lt_two_pow_self
    have units : y / 2 ^ s = 2 ^ d * (y / 2 ^ (s + d)) := by
      rw [pow_add]
      field_simp
    have large : (2 : ℚ) ^ 52 ≤ y / 2 ^ (s + d) := by
      rw [le_div_iff₀ (by positivity)]
      exact filled
    have slope : (2 : ℚ) ^ 52 * d ≤ (2 ^ d - 1) * (y / 2 ^ (s + d)) :=
      calc (2 : ℚ) ^ 52 * d ≤ 2 ^ 52 * (2 ^ d - 1) := by linarith
        _ ≤ (2 ^ d - 1) * (y / 2 ^ (s + d)) := by
          rw [mul_comm]
          exact mul_le_mul_of_nonneg_left large (by linarith [show (0 : ℚ) ≤ d from Nat.cast_nonneg d])
    rw [position, units]
    push_cast
    linarith

theorem dropped_mono (dx : Dropped x s) (dy : Dropped y t) (le : x ≤ y) : s ≤ t := by
  by_contra fewer
  have filled := dx.filled (by omega)
  have below := dy.below
  have powers : (2 : ℚ) ^ (t + 1) ≤ 2 ^ s := pow_le_pow_right₀ (by norm_num) (by omega)
  rw [pow_succ] at powers
  linarith

theorem position_strict (dx : Dropped x s) (dy : Dropped y t) (less : x < y) : position x s < position y t := by
  rcases Nat.eq_or_lt_of_le (dropped_mono dx dy less.le) with rfl | more
  · have := div_lt_div_of_pos_right less (show (0 : ℚ) < 2 ^ s by positivity)
    unfold position
    linarith
  · have low : x / 2 ^ s < 2 ^ 53 := by
      rw [div_lt_iff₀ (by positivity)]
      exact dx.below
    have high : (2 : ℚ) ^ 52 ≤ y / 2 ^ t := by
      rw [le_div_iff₀ (by positivity)]
      exact dy.filled (by omega)
    have next : (s : ℚ) + 1 ≤ t := by exact_mod_cast more
    unfold position
    linarith

theorem position_mono (dx : Dropped x s) (dy : Dropped y t) (le : x ≤ y) : position x s ≤ position y t := by
  rcases le.eq_or_lt with rfl | less
  · rw [Nat.le_antisymm (dropped_mono dx dy le) (dropped_mono dy dx le)]
  · exact (position_strict dx dy less).le

theorem position_gap (dx : Dropped x s) (dy : Dropped y t) (le : x ≤ y) :
    position y t - position x s ≤ (y - x) / 2 ^ s := by
  have line := position_below_line dy (dropped_mono dx dy le)
  rw [sub_div]
  unfold position at line ⊢
  linarith

theorem places_apart {n : Nat} (one : 1 ≤ n) (positive : 0 < den) (positive' : 0 < den')
    (close : |(num : ℚ) / den - num' / den'| < n * 2 ^ excess num den)
    (close' : |(num : ℚ) / den - num' / den'| < n * 2 ^ excess num' den') :
    Apart n (placeOf num den) (placeOf num' den') := by
  have least : (1 : ℚ) ≤ n := by exact_mod_cast one
  have near := abs_le.mp (place_near num positive)
  have near' := abs_le.mp (place_near num' positive')
  have dropped := excess_dropped num positive
  have dropped' := excess_dropped num' positive'
  have apart : ∀ {a b : Nat}, (a : ℚ) < b + (n + 1) → a ≤ b + n := by
    intro a b less
    have : a < b + (n + 1) := by exact_mod_cast less
    omega
  rcases le_total ((num : ℚ) / den) (num' / den') with le | le
  · have mono := position_mono dropped dropped' le
    have gap := position_gap dropped dropped' le
    have short : ((num' : ℚ) / den' - num / den) / 2 ^ excess num den < n := by
      rw [div_lt_iff₀ (by positivity), ← abs_of_nonneg (sub_nonneg.mpr le), abs_sub_comm]
      exact close
    exact ⟨apart (by linarith), apart (by linarith)⟩
  · have mono := position_mono dropped' dropped le
    have gap := position_gap dropped' dropped le
    have short : ((num : ℚ) / den - num' / den') / 2 ^ excess num' den' < n := by
      rw [div_lt_iff₀ (by positivity), ← abs_of_nonneg (sub_nonneg.mpr le)]
      exact close'
    exact ⟨apart (by linarith), apart (by linarith)⟩

theorem apart_of_below_one (positive : 0 < den) (positive' : 0 < den')
    (close : |(num : ℚ) / den - num' / den'| < 1) : Apart 1 (placeOf num den) (placeOf num' den') := by
  have unit : ∀ s : Nat, (1 : ℚ) ≤ (1 : Nat) * 2 ^ s := by
    intro s
    rw [Nat.cast_one, one_mul]
    exact one_le_pow₀ (by norm_num)
  exact places_apart (Nat.le_refl 1) positive positive' (close.trans_le (unit _)) (close.trans_le (unit _))

theorem places_within {n : Nat} (one : 1 ≤ n) (positive : 0 < den) (positive' : 0 < den')
    (near : Within (1 + n / 2 ^ 53) (num / den) (num' / den')) : Apart n (placeOf num den) (placeOf num' den') := by
  have least : (1 : ℚ) ≤ n := by exact_mod_cast one
  have share := near.apart (by positivity)
  generalize gap : |(num : ℚ) / den - num' / den'| = d at share
  have units : ∀ {z : ℚ} {s : Nat}, Dropped z s → d ≤ n / 2 ^ 53 * z → d < n * 2 ^ s := by
    intro z s dropped part
    calc d ≤ n / 2 ^ 53 * z := part
      _ < n / 2 ^ 53 * (2 ^ 53 * 2 ^ s) := mul_lt_mul_of_pos_left dropped.below (by positivity)
      _ = n * 2 ^ s := by field_simp
  apply places_apart one positive positive'
  · rw [gap]
    exact units (excess_dropped _ positive) share.1
  · rw [gap]
    exact units (excess_dropped _ positive') share.2

end Magnitude

end TablePeek
