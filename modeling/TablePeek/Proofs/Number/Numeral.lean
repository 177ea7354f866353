import TablePeek.Number.Numeral
import TablePeek.Proofs.Number.Places
import TablePeek.Proofs.Number.Plain

set_option autoImplicit false

namespace TablePeek

namespace Digits

theorem below_count (n : Nat) : n < 10 ^ count n := by
  rw [count, ofNat]
  split
  · rename_i small
    exact small
  · have front := below_count (n / 10)
    rw [count] at front
    rw [List.length_append, List.length_singleton]
    have next : 10 ^ ((ofNat (n / 10)).length + 1) = 10 ^ (ofNat (n / 10)).length * 10 := rfl
    omega
termination_by n
decreasing_by omega

theorem count_positive (n : Nat) : 0 < count n := List.length_pos_iff.mpr (of_nat_nonempty n)

theorem to_nat_lt (ds : List Char) (digits : ∀ c ∈ ds, c.isDigit = true) : toNat ds < 10 ^ ds.length := by
  induction ds using List.reverseRecOn with
  | nil => decide
  | append_singleton front c ih =>
    have small := digit_value_lt c (digits c (by simp))
    have before := ih fun d member => digits d (List.mem_append_left _ member)
    have next : 10 ^ (front.length + 1) = 10 ^ front.length * 10 := rfl
    rw [to_nat_snoc, List.length_append, List.length_singleton]
    omega

theorem to_nat_zeros_front (k : Nat) (ds : List Char) : toNat (List.replicate k '0' ++ ds) = toNat ds := by
  induction k with
  | zero => rfl
  | succ k ih =>
    rw [List.replicate_succ, List.cons_append]
    exact ih

theorem to_nat_zeros_behind (ds : List Char) (k : Nat) : toNat (ds ++ List.replicate k '0') = toNat ds * 10 ^ k := by
  induction k with
  | zero => exact (congrArg toNat (List.append_nil ds)).trans (Nat.mul_one _).symm
  | succ k ih =>
    have zero : value '0' = 0 := rfl
    have next : 10 ^ (k + 1) = 10 ^ k * 10 := rfl
    rw [List.replicate_succ', ← List.append_assoc, to_nat_snoc, ih, zero, next, Nat.add_zero, Nat.mul_comm, Nat.mul_assoc]

theorem count_to_nat (ds : List Char) (nonempty : ds ≠ []) (digits : ∀ c ∈ ds, c.isDigit = true) :
    count (toNat ds) ≤ ds.length := by
  have some := List.length_pos_iff.mpr nonempty
  by_cases zero : toNat ds = 0
  · rw [zero, count, of_nat_zero]
    exact some
  · by_contra more
    have wide : 10 ^ ds.length ≤ 10 ^ (count (toNat ds) - 1) := Nat.pow_le_pow_right (by decide) (by omega)
    have reached := count_reached (toNat ds) zero
    have below := to_nat_lt ds digits
    omega

end Digits

namespace Binary64

def place? : Binary64 → Option (Bool × Nat)
  | .nan => none
  | .infinity negative => some (negative, Magnitude.lastPlace)
  | .finite negative m => some (negative, m.place)

theorem of_ratio_place (negative : Bool) (num den : Nat) :
    (ofRatio negative num den).place? =
      some (negative, min Magnitude.lastPlace (Magnitude.placeOf (stepsInOne * num) den)) := by
  unfold ofRatio
  rcases Magnitude.nearest_cases (stepsInOne * num) den with ⟨m, found, place, _⟩ | ⟨none, past⟩
  · generalize Magnitude.nearest? (stepsInOne * num) den = result at found ⊢
    have inside := Nat.le_of_lt (place ▸ Magnitude.place_lt_last m)
    rw [found, Nat.min_eq_right inside, ← place]
    rfl
  · generalize Magnitude.nearest? (stepsInOne * num) den = result at none ⊢
    rw [none, Nat.min_eq_left past]
    rfl

theorem sign_place_injective {x y : Binary64} {p : Bool × Nat} (first : x.place? = some p) (second : y.place? = some p) :
    x = y := by
  cases x with
  | nan => cases first
  | infinity n =>
    cases first
    cases y with
    | nan => cases second
    | infinity n' =>
      cases second
      rfl
    | finite n' m =>
      have same : m.place = Magnitude.lastPlace := congrArg Prod.snd (Option.some.inj second)
      exact absurd same (Nat.ne_of_lt m.place_lt_last)
  | finite n m =>
    cases first
    cases y with
    | nan => cases second
    | infinity n' =>
      have same : Magnitude.lastPlace = m.place := congrArg Prod.snd (Option.some.inj second)
      exact absurd same (Nat.ne_of_gt m.place_lt_last)
    | finite n' m' =>
      have same := Prod.ext_iff.mp (Option.some.inj second)
      rw [Magnitude.place_injective (show m'.place = m.place from same.2), show n' = n from same.1]

theorem of_ratio_cross (negative : Bool) {num den num' den' : Nat} (positive : 0 < den) (positive' : 0 < den')
    (cross : num * den' = num' * den) : ofRatio negative num den = ofRatio negative num' den' := by
  have scaled : stepsInOne * num * den' = stepsInOne * num' * den := by rw [Nat.mul_assoc, cross, Nat.mul_assoc]
  apply sign_place_injective (of_ratio_place negative num den)
  rw [of_ratio_place, Magnitude.place_of_ratio positive positive' scaled]

end Binary64

namespace Numeral

def num (n : Numeral) : Nat := n.coefficient * 10 ^ n.exponent.toNat

def den (n : Numeral) : Nat := 10 ^ (-n.exponent).toNat

theorem den_positive (n : Numeral) : 0 < n.den := Nat.pow_pos (by decide)

theorem infinite_past_point (n : Numeral) (nonzero : n.coefficient ≠ 0) (past : 310 < n.point) :
    Magnitude.lastPlace ≤ Magnitude.placeOf (stepsInOne * n.num) n.den := by
  have ten : 2 ^ 1029 ≤ 10 ^ 310 := by decide +kernel
  rw [point] at past
  apply Magnitude.place_of_large (1074 + 1029) (by decide) n.den_positive
  rw [← Binary64.steps_in_one_shifted 1029, Nat.mul_assoc]
  apply Nat.mul_le_mul_left
  calc 2 ^ 1029 * n.den ≤ 10 ^ 310 * n.den := Nat.mul_le_mul_right _ ten
    _ = 10 ^ (310 + (-n.exponent).toNat) := by rw [Nat.pow_add, den]
    _ ≤ 10 ^ (Digits.count n.coefficient - 1 + n.exponent.toNat) :=
        Nat.pow_le_pow_right (by decide) (by omega)
    _ = 10 ^ (Digits.count n.coefficient - 1) * 10 ^ n.exponent.toNat := Nat.pow_add 10 _ _
    _ ≤ n.num := Nat.mul_le_mul_right _ (Digits.count_reached _ nonzero)

theorem zero_before_point (n : Numeral) (before : n.point < -330) :
    Magnitude.placeOf (stepsInOne * n.num) n.den = 0 := by
  have two : 2 * stepsInOne ≤ 10 ^ 330 := by decide +kernel
  rw [point] at before
  apply Magnitude.place_of_small
  rw [← Nat.mul_assoc]
  calc 2 * stepsInOne * n.num < 2 * stepsInOne * (10 ^ Digits.count n.coefficient * 10 ^ n.exponent.toNat) := by
        apply Nat.mul_lt_mul_of_pos_left _ (Nat.mul_pos Nat.two_pos steps_in_one_positive)
        exact Nat.mul_lt_mul_of_pos_right (Digits.below_count _) (Nat.pow_pos (by decide))
    _ ≤ 10 ^ 330 * (10 ^ Digits.count n.coefficient * 10 ^ n.exponent.toNat) := Nat.mul_le_mul_right _ two
    _ = 10 ^ (330 + (Digits.count n.coefficient + n.exponent.toNat)) := by rw [Nat.pow_add, Nat.pow_add]
    _ ≤ n.den := Nat.pow_le_pow_right (by decide) (by omega)

theorem nearest_of_zero (n : Numeral) (zero : n.coefficient = 0) : n.nearest = .zero n.negative := if_pos zero

theorem nearest_past (n : Numeral) (nonzero : n.coefficient ≠ 0) (past : 310 < n.point) :
    n.nearest = .infinity n.negative := by
  rw [nearest, if_neg nonzero, if_pos past]

theorem nearest_before (n : Numeral) (before : n.point < -330) : n.nearest = .zero n.negative := by
  by_cases zero : n.coefficient = 0
  · exact n.nearest_of_zero zero
  · rw [nearest, if_neg zero, if_neg (by omega), if_pos before]

theorem nearest_place (n : Numeral) :
    n.nearest.place? = some (n.negative, min Magnitude.lastPlace (Magnitude.placeOf (stepsInOne * n.num) n.den)) := by
  rw [nearest]
  split
  · rename_i zero
    have none : 2 * (stepsInOne * n.num) < n.den := by
      rw [num, zero, Nat.zero_mul, Nat.mul_zero, Nat.mul_zero]
      exact n.den_positive
    rw [Magnitude.place_of_small none]
    rfl
  · rename_i nonzero
    split
    · rename_i past
      rw [Nat.min_eq_left (n.infinite_past_point nonzero past)]
      rfl
    · split
      · rename_i before
        rw [n.zero_before_point before]
        rfl
      · split
        · rename_i whole
          have one : n.den = 1 := by rw [den, Int.toNat_of_nonpos (by omega), Nat.pow_zero]
          rw [Binary64.of_ratio_place, one, num]
        · rename_i fraction
          have all : n.num = n.coefficient := by
            rw [num, Int.toNat_of_nonpos (by omega), Nat.pow_zero, Nat.mul_one]
          rw [Binary64.of_ratio_place, all, den]

-- Whatever is cut short gives the number that rounding the whole ratio gives.
theorem nearest_ratio (n : Numeral) : n.nearest = .ofRatio n.negative n.num n.den :=
  Binary64.sign_place_injective n.nearest_place (Binary64.of_ratio_place _ _ _)

theorem nearest_one (k : Nat) : nearest ⟨false, 10 ^ k, -(k : Int)⟩ = .ofRatio false 1 1 := by
  have up : (-(k : Int)).toNat = 0 := Int.toNat_of_nonpos (by omega)
  have down : (-(-(k : Int))).toNat = k := by omega
  have num : Numeral.num ⟨false, 10 ^ k, -(k : Int)⟩ = 10 ^ k := by rw [Numeral.num, up, Nat.pow_zero, Nat.mul_one]
  have den : Numeral.den ⟨false, 10 ^ k, -(k : Int)⟩ = 10 ^ k := by rw [Numeral.den, down]
  rw [nearest_ratio, num, den]
  exact Binary64.of_ratio_cross false (Nat.pow_pos (by decide)) Nat.one_pos (by rw [Nat.mul_one, Nat.one_mul])

end Numeral

end TablePeek
