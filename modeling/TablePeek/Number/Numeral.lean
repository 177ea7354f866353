import TablePeek.Number.Binary64
import TablePeek.Number.Digits

set_option autoImplicit false

namespace TablePeek

def readInt64? (cs : List Char) : Option Int64 :=
  let (negative, ds) := Digits.splitSign cs
  if Digits.allDigits ds then
    let n : Int := if negative then -(Digits.toNat ds : Int) else Digits.toNat ds
    if -0x8000000000000000 ≤ n ∧ n < 0x8000000000000000 then some (Int64.ofInt n) else none
  else none

structure Numeral where
  negative : Bool
  coefficient : Nat
  exponent : Int
deriving DecidableEq, Repr

namespace Numeral

def exponentLimit : Nat := 0x10000

def exponent? : List Char → Option Int
  | [] => some 0
  | c :: rest =>
    if c = 'e' ∨ c = 'E' then
      let (negative, ds) := Digits.splitSign rest
      if Digits.allDigits ds then
        let size := Digits.foldBelow exponentLimit 0 ds
        some (if negative then -(size : Int) else size)
      else none
    else none

def fraction (cs : List Char) : List Char × List Char :=
  match cs with
  | '.' :: rest => (rest.takeWhile Char.isDigit, rest.dropWhile Char.isDigit)
  | cs => ([], cs)

def unsigned? (negative : Bool) (cs : List Char) : Option Numeral :=
  let whole := cs.takeWhile Char.isDigit
  let (decimals, tail) := fraction (cs.dropWhile Char.isDigit)
  if whole.isEmpty && decimals.isEmpty then none
  else
    (exponent? tail).map fun e =>
      { negative, coefficient := Digits.toNat (whole ++ decimals), exponent := e - decimals.length }

-- The value lies below `10 ^ point`, and not below a tenth of it unless it is zero.
def point (n : Numeral) : Int := Digits.count n.coefficient + n.exponent

-- Powers of ten are only formed where the result is neither surely zero nor surely infinite.
def nearest (n : Numeral) : Binary64 :=
  if n.coefficient = 0 then .zero n.negative
  else if 310 < n.point then .infinity n.negative
  else if n.point < -330 then .zero n.negative
  else if 0 ≤ n.exponent then .ofRatio n.negative (n.coefficient * 10 ^ n.exponent.toNat) 1
  else .ofRatio n.negative n.coefficient (10 ^ (-n.exponent).toNat)

end Numeral

namespace Binary64

def named? (negative : Bool) (cs : List Char) : Option Binary64 :=
  let word := cs.map Char.toLower
  if word = "inf".toList ∨ word = "infinity".toList then some (.infinity negative)
  else if word = "nan".toList then some .nan
  else none

def read? (cs : List Char) : Option Binary64 :=
  let (negative, rest) := Digits.splitSign cs
  ((Numeral.unsigned? negative rest).map Numeral.nearest).or (named? negative rest)

end Binary64

end TablePeek
