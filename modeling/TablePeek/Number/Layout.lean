import TablePeek.Number.Shortest

set_option autoImplicit false

namespace TablePeek

structure PointRange where
  low : Int
  high : Int
deriving DecidableEq, Repr

structure Layout where
  positional : Option PointRange
  decimalPlace : Bool
  exponentPlus : Bool
  tie : Tie
deriving DecidableEq, Repr

namespace Layout

-- Text cells: every digit is written out, whole numbers as whole numbers.
def plain : Layout := ⟨none, false, false, .up⟩

-- Number cells of the grid: positional from 0.00001 to sixteen whole digits.
def grid : Layout := ⟨some ⟨-5, 16⟩, true, false, .even⟩

-- Numbers inside nested values: as in the grid, with signed exponents.
def nested : Layout := ⟨some ⟨-5, 16⟩, true, true, .even⟩

def isPositional (l : Layout) (point : Int) : Bool :=
  match l.positional with
  | none => true
  | some r => r.low < point && point ≤ r.high

def writePositional (l : Layout) (ds : List Char) (point : Int) : List Char :=
  if point ≤ 0 then '0' :: '.' :: List.replicate (-point).toNat '0' ++ ds
  else if ds.length ≤ point.toNat then
    ds ++ List.replicate (point.toNat - ds.length) '0' ++ (if l.decimalPlace then ['.', '0'] else [])
  else ds.take point.toNat ++ '.' :: ds.drop point.toNat

def writeScientific (l : Layout) (ds : List Char) (point : Int) : List Char :=
  let exponent := point - 1
  ds.take 1 ++ (if ds.length = 1 then [] else '.' :: ds.drop 1) ++
    'e' :: (if l.exponentPlus && 0 ≤ exponent then ['+'] else []) ++ Digits.ofInt exponent

def writeDecimal (l : Layout) (d : Decimal) : List Char :=
  let ds := Digits.ofNat d.coefficient
  if l.isPositional d.point then l.writePositional ds d.point else l.writeScientific ds d.point

def sign (negative : Bool) : List Char := if negative then ['-'] else []

def write (l : Layout) : Binary64 → List Char
  | .nan => "NaN".toList
  | .infinity n => sign n ++ "inf".toList
  | .finite n m => sign n ++ l.writeDecimal (m.shortest l.tie)

end Layout

end TablePeek
