import TablePeek.Number.Binary64
import TablePeek.Number.Digits

/-!
Number literals read by a single scaling. The digits are gathered into 64 bits, digits that no longer
fit are dropped or counted, and the sum is rounded once and scaled by one power of ten. The result
can differ from the nearest number in its last place.
-/

set_option autoImplicit false

namespace TablePeek

namespace Binary64

def timesPower (m : Magnitude) (k : Nat) : Option Magnitude :=
  (Magnitude.nearest? (stepsInOne * 10 ^ k) 1).bind fun p =>
    Magnitude.nearest? (m.steps * p.steps) (stepsInOne)

def overPower (m : Magnitude) (k : Nat) : Option Magnitude :=
  (Magnitude.nearest? (stepsInOne * 10 ^ k) 1).bind fun p =>
    Magnitude.nearest? (stepsInOne * m.steps) p.steps

def overTenTo (m : Magnitude) (k : Nat) : Option Magnitude :=
  if k ≤ 308 then overPower m k
  else if m.significand = 0 then some m
  else (overPower m 308).bind fun q => overTenTo q (k - 308)
termination_by k
decreasing_by omega

def scaled? (m : Magnitude) (e : Int) : Option Magnitude :=
  if e < 0 then overTenTo m e.natAbs
  else if e.natAbs ≤ 308 then timesPower m e.natAbs
  else if m.significand = 0 then some m
  else none

end Binary64

structure Gathered where
  significand : Nat
  exponent : Int
  full : Bool
deriving DecidableEq, Repr

namespace Gathered

def empty : Gathered := ⟨0, 0, false⟩

-- A whole digit that does not fit, and every one after it, raises the exponent.
def pushWhole (g : Gathered) (c : Char) : Gathered :=
  let n := 10 * g.significand + Digits.value c
  if !g.full && n < 0x10000000000000000 then { g with significand := n }
  else { g with exponent := g.exponent + 1, full := true }

-- A decimal that does not fit, and every one after it, is dropped.
def pushDecimal (g : Gathered) (c : Char) : Gathered :=
  let n := 10 * g.significand + Digits.value c
  if !g.full && n < 0x10000000000000000 then { g with significand := n, exponent := g.exponent - 1 }
  else { g with full := true }

def ofDigits (whole decimals : List Char) : Gathered :=
  let w := whole.foldl pushWhole empty
  decimals.foldl pushDecimal { w with full := false }

def toBinary64? (g : Gathered) (negative : Bool) (e : Int) : Option Binary64 :=
  ((Magnitude.nearest? (stepsInOne * g.significand) 1).bind fun m =>
    Binary64.scaled? m (g.exponent + e)).map (.finite negative)

end Gathered

end TablePeek
