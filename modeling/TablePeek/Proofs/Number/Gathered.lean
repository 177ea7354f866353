import TablePeek.Number.Scaled
import TablePeek.Proofs.Number.Places
import TablePeek.Proofs.Number.Spelling

set_option autoImplicit false

namespace TablePeek

namespace Gathered

-- A significand and a whole number have so many digits in front in common: `front` stands in both, before `width`
-- digits more. A significand is full from a tenth of 2 ^ 64 on.
structure SameFront (significand raised n front width : Nat) : Prop where
  long : 1844674407370955161 ≤ front
  low : front * 10 ^ width ≤ n
  high : n < (front + 1) * 10 ^ width
  below : front * 10 ^ width ≤ significand * 10 ^ raised
  above : (significand + 1) * 10 ^ raised ≤ (front + 1) * 10 ^ width

namespace SameFront

variable {significand raised n front width digit : Nat}

theorem keep (same : SameFront significand raised n front width) (small : digit < 10) :
    SameFront (10 * significand + digit) raised (10 * n + digit) front (width + 1) where
  long := same.long
  low := by
    rw [Nat.pow_succ', Nat.mul_left_comm]
    have := same.low
    omega
  high := by
    rw [Nat.pow_succ', Nat.mul_left_comm]
    have := same.high
    omega
  below := by
    rw [Nat.pow_succ', Nat.mul_left_comm, Nat.add_mul, Nat.mul_assoc]
    have := same.below
    omega
  above := by
    rw [Nat.pow_succ', Nat.mul_left_comm (front + 1)]
    have most : (10 * significand + digit + 1) * 10 ^ raised ≤ 10 * ((significand + 1) * 10 ^ raised) := by
      rw [← Nat.mul_assoc]
      exact Nat.mul_le_mul_right _ (by omega)
    have := same.above
    omega

theorem drop (same : SameFront significand raised n front width) (small : digit < 10) :
    SameFront significand (raised + 1) (10 * n + digit) front (width + 1) where
  long := same.long
  low := (same.keep small).low
  high := (same.keep small).high
  below := by
    rw [Nat.pow_succ', Nat.pow_succ', Nat.mul_left_comm, Nat.mul_left_comm significand]
    have := same.below
    omega
  above := by
    rw [Nat.pow_succ', Nat.pow_succ', Nat.mul_left_comm, Nat.mul_left_comm (front + 1)]
    have := same.above
    omega

theorem start (small : digit < 10) (filled : 0x10000000000000000 ≤ 10 * significand + digit) :
    SameFront significand 1 (10 * significand + digit) significand 1 := by
  have ten : 10 ^ 1 = 10 := rfl
  refine ⟨by omega, ?_, ?_, Nat.le_refl _, Nat.le_refl _⟩
  · rw [ten]
    omega
  · rw [ten]
    omega

end SameFront

structure Gathers (g : Gathered) (n decimals raised : Nat) : Prop where
  exponent : g.exponent = (raised : Int) - decimals
  bounded : g.significand < 0x10000000000000000
  covers : g.significand = n ∧ raised = 0 ∨ ∃ front width, SameFront g.significand raised n front width
  stopped : g.full = true → ∃ front width, SameFront g.significand raised n front width

variable {g : Gathered} {n decimals raised : Nat} {c : Char}

theorem gathers_empty : Gathers empty 0 0 0 := ⟨rfl, by decide, .inl ⟨rfl, rfl⟩, fun full => by cases full⟩

namespace Gathers

theorem reopened (known : Gathers g n decimals raised) : Gathers { g with full := false } n decimals raised :=
  ⟨known.exponent, known.bounded, known.covers, fun full => by cases full⟩

theorem covers_kept (known : Gathers g n decimals raised) (small : Digits.value c < 10) :
    10 * g.significand + Digits.value c = 10 * n + Digits.value c ∧ raised = 0 ∨
      ∃ front width, SameFront (10 * g.significand + Digits.value c) raised (10 * n + Digits.value c) front width := by
  rcases known.covers with ⟨all, none⟩ | ⟨front, width, same⟩
  · exact .inl ⟨by rw [all], none⟩
  · exact .inr ⟨front, width + 1, same.keep small⟩

theorem front_dropped (known : Gathers g n decimals raised) (small : Digits.value c < 10)
    (closed : ¬ (!g.full && 10 * g.significand + Digits.value c < 0x10000000000000000) = true) :
    ∃ front width, SameFront g.significand (raised + 1) (10 * n + Digits.value c) front width := by
  rcases known.covers with ⟨all, none⟩ | ⟨front, width, same⟩
  · cases stopped : g.full with
    | true =>
      obtain ⟨front, width, same⟩ := known.stopped stopped
      exact ⟨front, width + 1, same.drop small⟩
    | false =>
      simp only [stopped, Bool.not_false, Bool.true_and, decide_eq_true_eq] at closed
      rw [none, ← all]
      exact ⟨g.significand, 1, .start small (Nat.le_of_not_lt closed)⟩
  · exact ⟨front, width + 1, same.drop small⟩

theorem whole_digit (known : Gathers g n 0 raised) (digit : c.isDigit = true) :
    ∃ raised', Gathers (pushWhole g c) (10 * n + Digits.value c) 0 raised' := by
  have small := Digits.digit_value_lt c digit
  have exponent := known.exponent
  unfold pushWhole
  simp only
  split
  · rename_i fits
    simp only [Bool.and_eq_true, Bool.not_eq_true', decide_eq_true_eq] at fits
    exact ⟨raised, exponent, fits.2, known.covers_kept small, fun full => absurd full (by simp [fits.1])⟩
  · rename_i closed
    have front := known.front_dropped small closed
    refine ⟨raised + 1, ?_, known.bounded, .inr front, fun _ => front⟩
    simp only
    omega

theorem decimal_digit (known : Gathers g n decimals raised) (digit : c.isDigit = true) :
    ∃ raised', Gathers (pushDecimal g c) (10 * n + Digits.value c) (decimals + 1) raised' := by
  have small := Digits.digit_value_lt c digit
  have exponent := known.exponent
  unfold pushDecimal
  simp only
  split
  · rename_i fits
    simp only [Bool.and_eq_true, Bool.not_eq_true', decide_eq_true_eq] at fits
    refine ⟨raised, ?_, fits.2, known.covers_kept small, fun full => absurd full (by simp [fits.1])⟩
    simp only
    omega
  · rename_i closed
    have front := known.front_dropped small closed
    refine ⟨raised + 1, ?_, known.bounded, .inr front, fun _ => front⟩
    simp only
    omega

theorem whole_digits (ds : List Char) (digits : ∀ c ∈ ds, c.isDigit = true) (known : Gathers g n 0 raised) :
    ∃ raised', Gathers (ds.foldl pushWhole g) (Digits.fold n ds) 0 raised' := by
  induction ds generalizing g n raised with
  | nil => exact ⟨raised, known⟩
  | cons c ds ih =>
    obtain ⟨next, pushed⟩ := known.whole_digit (digits c List.mem_cons_self)
    exact ih (fun d member => digits d (List.mem_cons_of_mem _ member)) pushed

theorem decimal_digits (ds : List Char) (digits : ∀ c ∈ ds, c.isDigit = true) (known : Gathers g n decimals raised) :
    ∃ raised', Gathers (ds.foldl pushDecimal g) (Digits.fold n ds) (decimals + ds.length) raised' := by
  induction ds generalizing g n decimals raised with
  | nil => exact ⟨raised, known⟩
  | cons c ds ih =>
    obtain ⟨next, pushed⟩ := known.decimal_digit (digits c List.mem_cons_self)
    obtain ⟨last, rest⟩ := ih (fun d member => digits d (List.mem_cons_of_mem _ member)) pushed
    rw [Nat.add_right_comm, Nat.add_assoc] at rest
    exact ⟨last, rest⟩

end Gathers

theorem of_digits_gathers (whole decimals : List Char) (digits : ∀ c ∈ whole ++ decimals, c.isDigit = true) :
    ∃ raised, Gathers (ofDigits whole decimals) (Digits.toNat (whole ++ decimals)) decimals.length raised := by
  obtain ⟨first, known⟩ :=
    gathers_empty.whole_digits whole fun c member => digits c (List.mem_append_left _ member)
  obtain ⟨last, all⟩ :=
    known.reopened.decimal_digits decimals fun c member => digits c (List.mem_append_right _ member)
  rw [← Digits.fold_append, Nat.zero_add] at all
  exact ⟨last, all⟩

namespace Gathers

theorem exact (known : Gathers g n decimals raised) (short : n < 1844674407370955161) :
    g.significand = n ∧ raised = 0 := by
  rcases known.covers with all | ⟨front, width, same⟩
  · exact all
  · have low := Nat.le_trans (Nat.le_mul_of_pos_right front (Nat.pow_pos (by decide))) same.low
    exact absurd (Nat.le_trans same.long low) (Nat.not_le_of_lt short)

theorem nonzero (known : Gathers g n decimals raised) (positive : n ≠ 0) : g.significand ≠ 0 := by
  rcases known.covers with ⟨all, _⟩ | ⟨front, width, same⟩
  · rwa [all]
  · intro zero
    have below := same.below
    rw [zero, Nat.zero_mul] at below
    have width_pos : 0 < 10 ^ width := Nat.pow_pos (by decide)
    have := Nat.mul_pos (Nat.lt_of_lt_of_le (by decide) same.long) width_pos
    omega

-- Dropping digits costs less than one part in nineteen digits.
theorem within (known : Gathers g n decimals raised) :
    Within (1 + 1 / 1844674407370955161) (g.significand * 10 ^ raised) n := by
  rcases known.covers with ⟨rfl, rfl⟩ | ⟨front, width, same⟩
  · have nonneg : (0 : ℚ) ≤ g.significand := Nat.cast_nonneg _
    rw [pow_zero]
    constructor <;> linarith
  · have long : (1844674407370955161 : ℚ) * 10 ^ width ≤ front * 10 ^ width := by
      exact_mod_cast Nat.mul_le_mul_right _ same.long
    have low : (front : ℚ) * 10 ^ width ≤ n := by exact_mod_cast same.low
    have high : (n : ℚ) ≤ (front + 1) * 10 ^ width := by exact_mod_cast Nat.le_of_lt same.high
    have below : (front : ℚ) * 10 ^ width ≤ g.significand * 10 ^ raised := by exact_mod_cast same.below
    have above : ((g.significand : ℚ) + 1) * 10 ^ raised ≤ (front + 1) * 10 ^ width := by
      exact_mod_cast same.above
    have more : (0 : ℚ) ≤ 10 ^ raised := by positivity
    constructor <;> linarith

end Gathers

end Gathered

end TablePeek
