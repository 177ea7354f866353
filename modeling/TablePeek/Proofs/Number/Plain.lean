import TablePeek.Proofs.Number.Spelling

set_option autoImplicit false

namespace TablePeek

inductive Positional : List Char → Prop where
  | nan : Positional "NaN".toList
  | infinity (negative : Bool) : Positional (Layout.sign negative ++ "inf".toList)
  | whole (negative : Bool) (ds : List Char) (tight : Digits.Tight ds) : Positional (Layout.sign negative ++ ds)
  | fraction (negative : Bool) (ds decimals : List Char) (tight : Digits.Tight ds)
      (digits : ∀ c ∈ decimals, c.isDigit = true) (nonempty : decimals ≠ []) (last : decimals.getLast? ≠ some '0') :
      Positional (Layout.sign negative ++ (ds ++ '.' :: decimals))

namespace Digits

theorem of_nat_last (n : Nat) : (ofNat n).getLast? = some (char n) := by
  rw [ofNat]
  split
  · rfl
  · exact List.getLast?_concat

theorem zeros_digits (k : Nat) : ∀ c ∈ List.replicate k '0', c.isDigit = true := by
  intro c member
  rw [List.eq_of_mem_replicate member]
  rfl

theorem count_reached (n : Nat) (positive : n ≠ 0) : 10 ^ (count n - 1) ≤ n := by
  rw [count, ofNat]
  split
  · exact Nat.pos_of_ne_zero positive
  · have front := count_reached (n / 10) (by omega)
    have filled : 0 < (ofNat (n / 10)).length := List.length_pos_iff.mpr (of_nat_nonempty _)
    rw [count] at front
    obtain ⟨k, length⟩ := Nat.exists_eq_succ_of_ne_zero (Nat.ne_of_gt filled)
    rw [length] at front
    rw [List.length_append, List.length_singleton, length]
    have next : 10 ^ (k + 1) = 10 ^ k * 10 := rfl
    change 10 ^ k ≤ n / 10 at front
    change 10 ^ (k + 1) ≤ n
    omega
termination_by n
decreasing_by omega

end Digits

namespace Decimal

theorem trim_last (k : Nat) (e : Int) (positive : k ≠ 0) : (trim k e).coefficient % 10 ≠ 0 := by
  rw [trim]
  split
  · exact trim_last (k / 10) (e + 1) (by omega)
  · rename_i stops
    change k % 10 ≠ 0
    omega
termination_by k
decreasing_by omega

end Decimal

namespace Magnitude

variable {m : Magnitude} {i : Interval} {s : Spacing} {tie : Tie}

theorem steps_positive (nonzero : m.significand ≠ 0) : 2 ^ m.shift ≤ m.steps :=
  Nat.le_mul_of_pos_left _ (Nat.pos_of_ne_zero nonzero)

theorem low_positive (nonzero : m.significand ≠ 0) : 0 < m.interval.low := by
  have least := steps_positive nonzero
  have gap := Nat.two_pow_pos m.shift
  simp only [interval]
  split <;> omega

theorem nothing_outside (low : 0 < i.low) (den : 0 < s.den) : i.holds s 0 = false := by
  have below : 0 < i.low * s.den := Nat.mul_pos low den
  have none : s.scaled 0 = 0 := by rw [Spacing.scaled, Nat.zero_mul, Nat.mul_zero]
  rw [Interval.holds, none]
  split
  · simp only [Bool.and_eq_false_iff, decide_eq_false_iff_not]
    omega
  · simp only [Bool.and_eq_false_iff, decide_eq_false_iff_not]
    omega

theorem pick_holds {k : Nat} (picked : i.pick? s tie = some k) : i.holds s k = true := by
  unfold Interval.pick? at picked
  simp only at picked
  generalize i.middle * s.den / (quarters * s.num) = first at picked
  cases lower : i.holds s first <;> cases upper : i.holds s (first + 1) <;> simp only [lower, upper] at picked
  · cases picked
  · cases picked
    exact upper
  · cases picked
    exact lower
  · have either : k = first ∨ k = first + 1 := by
      cases tie <;> grind
    rcases either with rfl | rfl
    · exact lower
    · exact upper

theorem pick_positive (low : 0 < i.low) (den : 0 < s.den) {k : Nat} (picked : i.pick? s tie = some k) : k ≠ 0 := by
  have held := pick_holds picked
  rintro rfl
  rw [nothing_outside low den] at held
  cases held

theorem spacing_den_positive (e : Int) : 0 < (Spacing.ofExponent e).den := Nat.pow_pos (by decide)

-- The point is counted from a digit of the number, so that the number reaches every power of ten below it.
theorem point_reached (nonzero : m.significand ≠ 0) (j : Nat) (below : 1 ≤ j) :
    quarters * 10 ^ (m.point - j).toNat ≤ m.interval.middle * 10 ^ (-(m.point - j)).toNat := by
  have steps : 1 ≤ m.steps := Nat.le_trans (Nat.two_pow_pos _) (steps_positive nonzero)
  have all : 0 < quarters := Nat.mul_pos (by decide) steps_in_one_positive
  have reach : quarters ≤ 10 ^ 340 * (4 * m.steps) := by
    have wide : quarters ≤ 10 ^ 340 * 4 := by decide +kernel
    have filled : 4 ≤ 4 * m.steps := Nat.le_mul_of_pos_right 4 steps
    generalize 10 ^ 340 = t at wide ⊢
    exact Nat.le_trans wide (Nat.mul_le_mul_left t filled)
  have counted : 10 ^ (Digits.count (10 ^ 340 * (4 * m.steps) / quarters) - 1) * quarters ≤ 10 ^ 340 * (4 * m.steps) := by
    generalize 10 ^ 340 * (4 * m.steps) = scaled at reach ⊢
    rw [← Nat.le_div_iff_mul_le all]
    exact Digits.count_reached _ (Nat.ne_of_gt (Nat.div_pos reach all))
  have digits : 1 ≤ Digits.count (10 ^ 340 * (4 * m.steps) / quarters) := List.length_pos_iff.mpr (Digits.of_nat_nonempty _)
  rw [point]
  generalize Digits.count (10 ^ 340 * (4 * m.steps) / quarters) = c at counted digits ⊢
  change _ ≤ 4 * m.steps * _
  have exponents : ((c : Int) - 340 - j).toNat + (339 + j) = c - 1 + (-((c : Int) - 340 - j)).toNat := by omega
  generalize ((c : Int) - 340 - j).toNat = a at exponents ⊢
  generalize (-((c : Int) - 340 - j)).toNat = b at exponents ⊢
  have more : 340 ≤ 339 + j := by omega
  have wider := Nat.pow_le_pow_right (n := 10) (by decide) more
  have positive : 0 < 10 ^ (339 + j) := Nat.pow_pos (by decide)
  generalize 10 ^ 340 = reached at counted wider
  apply Nat.le_of_mul_le_mul_right _ positive
  calc quarters * 10 ^ a * 10 ^ (339 + j)
      = quarters * (10 ^ (c - 1) * 10 ^ b) := by rw [Nat.mul_assoc, ← Nat.pow_add, exponents, Nat.pow_add]
    _ = 10 ^ (c - 1) * quarters * 10 ^ b := by rw [← Nat.mul_assoc, Nat.mul_comm quarters]
    _ ≤ reached * (4 * m.steps) * 10 ^ b := Nat.mul_le_mul_right _ counted
    _ ≤ 10 ^ (339 + j) * (4 * m.steps) * 10 ^ b := Nat.mul_le_mul_right _ (Nat.mul_le_mul_right _ wider)
    _ = 4 * m.steps * 10 ^ b * 10 ^ (339 + j) := by rw [Nat.mul_assoc, Nat.mul_comm (10 ^ (339 + j))]

theorem shortest_from_last (low : 0 < i.low) (left : Nat) (e : Int)
    (reach : quarters * 10 ^ (e - left).toNat ≤ i.middle * 10 ^ (-(e - left)).toNat) :
    (shortestFrom tie i e left).coefficient % 10 ≠ 0 := by
  induction left generalizing e with
  | zero =>
    have all : 0 < quarters * 10 ^ e.toNat := Nat.mul_pos (Nat.mul_pos (by decide) steps_in_one_positive) (Nat.pow_pos (by decide))
    rw [Int.natCast_zero, Int.sub_zero] at reach
    exact Decimal.trim_last _ e (Nat.ne_of_gt (Nat.div_pos reach all))
  | succ left ih =>
    rw [shortestFrom]
    cases picked : i.pick? (.ofExponent e) tie with
    | some k => exact Decimal.trim_last k e (pick_positive low (spacing_den_positive e) picked)
    | none =>
      have rest : e - (left + 1 : Nat) = e - 1 - left := by omega
      rw [rest] at reach
      exact ih (e - 1) reach

theorem shortest_last (tie : Tie) (m : Magnitude) : m.shortest tie = ⟨0, 0⟩ ∨ (m.shortest tie).coefficient % 10 ≠ 0 := by
  rw [shortest]
  by_cases nonzero : m.significand = 0
  · exact .inl (if_pos nonzero)
  · rw [if_neg nonzero]
    have all : m.point - 1 - (17 : Nat) = m.point - (18 : Nat) := by omega
    exact .inr (shortest_from_last (low_positive nonzero) 17 (m.point - 1) (all ▸ point_reached nonzero 18 (by decide)))

end Magnitude

namespace Layout

open Digits (Tight)

theorem tight_zeros (n k : Nat) (positive : n ≠ 0) : Tight (Digits.ofNat n ++ List.replicate k '0') where
  digits := by
    have digits := Digits.of_nat_digits n
    exact (Digits.all_digits_iff _).mpr ⟨by simp [Digits.of_nat_nonempty],
      List.forall_mem_append.mpr ⟨digits, Digits.zeros_digits k⟩⟩
  leading zero := by
    obtain ⟨c, ds, written⟩ := List.exists_cons_of_ne_nil (Digits.of_nat_nonempty n)
    rw [written, List.cons_append, List.head?_cons, Option.some.injEq] at zero
    exact absurd (Digits.of_nat_leading_zero n ds (by rw [written, zero])) positive

theorem positional_decimal (negative : Bool) (d : Decimal) (trimmed : d = ⟨0, 0⟩ ∨ d.coefficient % 10 ≠ 0) :
    Positional (sign negative ++ plain.writeDecimal d) := by
  have written : plain.writeDecimal d = plain.writePositional (Digits.ofNat d.coefficient) d.point := rfl
  rw [written]
  rcases trimmed with rfl | last
  · have zero : plain.writePositional (Digits.ofNat 0) (Decimal.point ⟨0, 0⟩) = ['0'] := by
      rw [Decimal.point, Digits.count, Digits.of_nat_zero]
      rfl
    rw [zero]
    exact .whole negative ['0'] ⟨rfl, fun _ => rfl⟩
  · have positive : d.coefficient ≠ 0 := by omega
    have ending : (Digits.ofNat d.coefficient).getLast? ≠ some '0' := by
      rw [Digits.of_nat_last]
      intro zero
      exact last (Digits.char_zero _ (Option.some.inj zero))
    have digits := Digits.of_nat_digits d.coefficient
    have nonempty := Digits.of_nat_nonempty d.coefficient
    rw [writePositional]
    split
    · refine .fraction negative ['0'] _ ⟨rfl, fun _ => rfl⟩ (List.forall_mem_append.mpr ⟨Digits.zeros_digits _, digits⟩)
        ?_ ?_
      · simp [nonempty]
      · change (List.replicate (-d.point).toNat '0' ++ Digits.ofNat d.coefficient).getLast? ≠ some '0'
        rwa [List.getLast?_append, Digits.of_nat_last, Option.some_or, ← Digits.of_nat_last]
    · split
      · have whole := tight_zeros d.coefficient (d.point.toNat - (Digits.ofNat d.coefficient).length) positive
        have same := Positional.whole negative _ whole
        simpa [plain] using same
      · rename_i before inside
        have point : 0 < d.point.toNat := by omega
        have more : (Digits.ofNat d.coefficient).drop d.point.toNat ≠ [] := by
          rw [ne_eq, List.drop_eq_nil_iff]
          exact inside
        have whole : Tight ((Digits.ofNat d.coefficient).take d.point.toNat) := by
          refine ⟨(Digits.all_digits_iff _).mpr ⟨?_, fun c member => digits c (List.mem_of_mem_take member)⟩, fun zero => ?_⟩
          · rw [ne_eq, List.take_eq_nil_iff]
            exact fun none => none.elim (Nat.ne_of_gt point) nonempty
          · obtain ⟨c, ds, shape⟩ := List.exists_cons_of_ne_nil nonempty
            rw [List.head?_take, if_neg (Nat.ne_of_gt point), shape, List.head?_cons, Option.some.injEq] at zero
            exact absurd (Digits.of_nat_leading_zero _ ds (by rw [shape, zero])) positive
        refine .fraction negative _ _ whole (fun c member => digits c (List.mem_of_mem_drop member)) more ?_
        rwa [List.getLast?_drop, if_neg inside]

theorem plain_positional (x : Binary64) : Positional (plain.write x) := by
  cases x with
  | nan => exact .nan
  | infinity negative => exact .infinity negative
  | finite negative m => exact positional_decimal negative _ (m.shortest_last plain.tie)

end Layout

end TablePeek
