import TablePeek.Number.Digits

/-!
Days and instants of the proleptic Gregorian calendar. Days are counted from 1 January 1970; the
computation shifts years to begin in March, so that the leap day ends a year and 400 years are one
period.
-/

set_option autoImplicit false

namespace TablePeek

structure Date where
  year : Int
  month : Nat
  day : Nat
deriving DecidableEq, Repr

namespace Date

def period : Int := 146097

def yearOfPeriod (d : Nat) : Nat := (d - d / 1460 + d / 36524 - d / 146096) / 365

def daysBefore (y : Nat) : Nat := 365 * y + y / 4 - y / 100

def ofDay (days : Int) : Date :=
  let shifted := days + 719468
  let inPeriod := (shifted % period).toNat
  let y := yearOfPeriod inPeriod
  let inYear := inPeriod - daysBefore y
  let m := (5 * inYear + 2) / 153
  let month := if m < 10 then m + 3 else m - 9
  { year := shifted / period * 400 + y + (if month ≤ 2 then 1 else 0)
    month
    day := inYear - (153 * m + 2) / 5 + 1 }

def yearText (y : Int) : List Char :=
  if 0 ≤ y ∧ y ≤ 9999 then Digits.padded 4 y.toNat
  else (if y < 0 then '-' else '+') :: Digits.padded 4 y.natAbs

def toText (d : Date) : List Char :=
  yearText d.year ++ '-' :: Digits.padded 2 d.month ++ '-' :: Digits.padded 2 d.day

end Date

namespace Instant

def millisPerDay : Int := 86400000

-- Milliseconds are left out when they are zero.
def toText (millis : Int) : List Char :=
  let t := (millis % millisPerDay).toNat
  let fraction := t % 1000
  Date.toText (Date.ofDay (millis / millisPerDay)) ++ 'T' :: Digits.padded 2 (t / 3600000) ++
    ':' :: Digits.padded 2 (t / 60000 % 60) ++ ':' :: Digits.padded 2 (t / 1000 % 60) ++
    (if fraction = 0 then [] else '.' :: Digits.padded 3 fraction)

-- Dates are only made for these years.
def Dated (millis : Int) : Prop :=
  -262143 ≤ (Date.ofDay (millis / millisPerDay)).year ∧ (Date.ofDay (millis / millisPerDay)).year ≤ 262142

instance (millis : Int) : Decidable (Dated millis) := inferInstanceAs (Decidable (_ ∧ _))

end Instant

end TablePeek
