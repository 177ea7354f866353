/-!
Binary64 numbers as exact counts. A finite magnitude is a whole number of steps of 2^-1074, written
in the one form the format allows, so equal magnitudes are equal values; every rounding below is done
on exact natural numbers, to the nearest magnitude and to the even one of two that are equally near.
-/

set_option autoImplicit false

namespace TablePeek

-- One instance for powers of whole numbers, with and without those of monoids in scope.
attribute [instance (10000)] instPowNat

def divNearest (num den : Nat) : Nat :=
  if 2 * (num % den) < den ∨ (2 * (num % den) = den ∧ num / den % 2 = 0) then num / den
  else num / den + 1

theorem div_le_div_nearest (num den : Nat) : num / den ≤ divNearest num den := by
  rw [divNearest]
  split <;> omega

theorem div_nearest_le (num den : Nat) : divNearest num den ≤ num / den + 1 := by
  rw [divNearest]
  split <;> omega

-- A finite magnitude: `significand * 2 ^ shift` steps of `2 ^ (-1074)`. The significand fills its
-- 53 bits unless the shift is zero, so every value has one form.
structure Magnitude where
  significand : Nat
  shift : Nat
  significand_lt : significand < 0x20000000000000
  normal : shift = 0 ∨ 0x10000000000000 ≤ significand
  shift_le : shift ≤ 2045
deriving DecidableEq, Repr

def stepsInOne : Nat := 2 ^ (1074 : Nat)

theorem steps_in_one_positive : 0 < stepsInOne := by
  apply Nat.pow_pos
  decide

namespace Magnitude

def zero : Magnitude := ⟨0, 0, by decide, by decide, by decide⟩

def steps (m : Magnitude) : Nat := m.significand * 2 ^ m.shift

def excess (num den : Nat) : Nat := Nat.log2 (num / den) - 52

theorem pow_excess_le {num den : Nat} (dropped : excess num den ≠ 0) : 2 ^ (excess num den + 52) ≤ num / den := by
  have nonzero : num / den ≠ 0 := by
    intro zero
    rw [excess, zero] at dropped
    exact dropped rfl
  have bits : excess num den + 52 = Nat.log2 (num / den) := Nat.sub_add_cancel (Nat.le_of_lt (Nat.lt_of_sub_ne_zero dropped))
  rw [bits]
  exact Nat.log2_self_le nonzero

theorem significand_le_div_nearest {num den : Nat} (dropped : excess num den ≠ 0) :
    0x10000000000000 ≤ divNearest num (den * 2 ^ excess num den) := by
  apply Nat.le_trans _ (div_le_div_nearest _ _)
  rw [← Nat.div_div_eq_div_mul, Nat.le_div_iff_mul_le (Nat.two_pow_pos _),
    show 0x10000000000000 = 2 ^ 52 from rfl, ← Nat.pow_add, Nat.add_comm]
  exact pow_excess_le dropped

def nearest? (num den : Nat) : Option Magnitude :=
  let shift := excess num den
  let kept := divNearest num (den * 2 ^ shift)
  if hk : kept < 0x20000000000000 then
    if hs : shift ≤ 2045 then
      some ⟨kept, shift, hk, by
        by_cases h : shift = 0
        · exact .inl h
        · exact .inr (significand_le_div_nearest h), hs⟩
    else none
  else if hs : shift + 1 ≤ 2045 then
    some ⟨0x10000000000000, shift + 1, by decide, .inr (Nat.le_refl _), hs⟩
  else none

end Magnitude

-- All not-a-number words are one value.
inductive Binary64 where
  | nan
  | infinity (negative : Bool)
  | finite (negative : Bool) (magnitude : Magnitude)
deriving DecidableEq, Repr

namespace Binary64

def ofRatio (negative : Bool) (num den : Nat) : Binary64 :=
  match Magnitude.nearest? (stepsInOne * num) den with
  | some m => .finite negative m
  | none => .infinity negative

def zero (negative : Bool) : Binary64 := .finite negative .zero

def ofInt (i : Int) : Binary64 := ofRatio (decide (i < 0)) i.natAbs 1

def toWord : Binary64 → UInt64
  | .nan => 0x7FF8000000000000
  | .infinity n => UInt64.ofNat (signWord n + 0x7FF0000000000000)
  | .finite n m => UInt64.ofNat (signWord n + 0x10000000000000 * m.shift + m.significand)
where
  signWord (negative : Bool) : Nat := if negative then 0x8000000000000000 else 0

def ofFields (exponent fraction : Nat) : Magnitude :=
  let f := fraction % 0x10000000000000
  if h : exponent = 0 then ⟨f, 0, by omega, .inl rfl, by omega⟩
  else ⟨0x10000000000000 + f, min (exponent - 1) 2045, by omega, .inr (by omega), by omega⟩

def ofWord (w : UInt64) : Binary64 :=
  let n := decide (0x8000000000000000 ≤ w.toNat)
  let exponent := w.toNat / 0x10000000000000 % 2048
  let fraction := w.toNat % 0x10000000000000
  if exponent = 2047 then (if fraction = 0 then .infinity n else .nan)
  else .finite n (ofFields exponent fraction)

end Binary64

end TablePeek
