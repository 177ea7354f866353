import TablePeek.Number.Binary64
import TablePeek.Number.Digits

set_option autoImplicit false

namespace TablePeek

structure Decimal where
  coefficient : Nat
  exponent : Int
deriving DecidableEq, Repr

inductive Tie where
  | even
  | up
deriving DecidableEq, Repr

namespace Decimal

def trim (coefficient : Nat) (exponent : Int) : Decimal :=
  if h : coefficient ≠ 0 ∧ coefficient % 10 = 0 then trim (coefficient / 10) (exponent + 1)
  else ⟨coefficient, exponent⟩
termination_by coefficient
decreasing_by omega

def point (d : Decimal) : Int := Digits.count d.coefficient + d.exponent

end Decimal

namespace Magnitude

-- Counted in quarters of a step: the lower neighbour of a power of two is only half as far.
structure Interval where
  low : Nat
  middle : Nat
  high : Nat
  closed : Bool
deriving DecidableEq, Repr

def interval (m : Magnitude) : Interval :=
  let gap := 2 ^ m.shift
  let below := if m.significand = 0x10000000000000 ∧ m.shift ≠ 0 then gap else 2 * gap
  { low := 4 * m.steps - below, middle := 4 * m.steps, high := 4 * m.steps + 2 * gap,
    closed := m.significand % 2 = 0 }

def quarters : Nat := 4 * stepsInOne

def point (m : Magnitude) : Int :=
  (Digits.count (10 ^ (340 : Nat) * (4 * m.steps) / quarters) : Int) - 340

structure Spacing where
  num : Nat
  den : Nat

def Spacing.ofExponent (e : Int) : Spacing := ⟨10 ^ e.toNat, 10 ^ (-e).toNat⟩

def Spacing.scaled (s : Spacing) (k : Nat) : Nat := quarters * (k * s.num)

def Interval.holds (i : Interval) (s : Spacing) (k : Nat) : Bool :=
  if i.closed then i.low * s.den ≤ s.scaled k && s.scaled k ≤ i.high * s.den
  else i.low * s.den < s.scaled k && s.scaled k < i.high * s.den

def Interval.pick? (i : Interval) (s : Spacing) (tie : Tie) : Option Nat :=
  let k := i.middle * s.den / (quarters * s.num)
  let below := i.middle * s.den - s.scaled k
  let above := s.scaled (k + 1) - i.middle * s.den
  match i.holds s k, i.holds s (k + 1) with
  | true, true =>
    if below < above then some k
    else if above < below then some (k + 1)
    else match tie with
      | .up => some (k + 1)
      | .even => some (if k % 2 = 0 then k else k + 1)
  | true, false => some k
  | false, true => some (k + 1)
  | false, false => none

def shortestFrom (tie : Tie) (i : Interval) (exponent : Int) : Nat → Decimal
  | 0 => .trim (i.middle * 10 ^ (-exponent).toNat / (quarters * 10 ^ exponent.toNat)) exponent
  | left + 1 =>
    match i.pick? (.ofExponent exponent) tie with
    | some k => .trim k exponent
    | none => shortestFrom tie i (exponent - 1) left

-- Seventeen digits always suffice.
def shortest (tie : Tie) (m : Magnitude) : Decimal :=
  if m.significand = 0 then ⟨0, 0⟩ else shortestFrom tie m.interval (m.point - 1) 17

end Magnitude

end TablePeek
