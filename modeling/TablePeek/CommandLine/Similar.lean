set_option autoImplicit false

namespace TablePeek.CommandLine

structure Likeness where
  numerator : Nat
  denominator : Nat
deriving DecidableEq, Repr

namespace Likeness

def le (a b : Likeness) : Bool := a.numerator * b.denominator ≤ b.numerator * a.denominator

structure Matching where
  first : List Char
  second : List (Nat × Char)

def find (letter : Char) (low high : Nat) (taken : List (Nat × Char)) : Nat → List Char → Option Nat
  | _, [] => none
  | at_, c :: rest =>
    if low ≤ at_ ∧ at_ < high ∧ c = letter ∧ !taken.any (·.1 = at_) then some at_
    else find letter low high taken (at_ + 1) rest

def matchFrom (range : Nat) (other : List Char) (m : Matching) : Nat → List Char → Matching
  | _, [] => m
  | at_, c :: rest =>
    match find c (at_ - range) (at_ + range + 1) m.second 0 other with
    | none => matchFrom range other m (at_ + 1) rest
    | some place => matchFrom range other ⟨m.first ++ [c], m.second ++ [(place, c)]⟩ (at_ + 1) rest

def Matching.ordered (m : Matching) : List Char :=
  (m.second.mergeSort fun a b => a.1 ≤ b.1).map Prod.snd

def ofWords (a b : List Char) : Likeness :=
  if a.isEmpty && b.isEmpty then ⟨3, 1⟩
  else
    let range := max a.length b.length / 2 - 1
    let m := matchFrom range b ⟨[], []⟩ 0 a
    let matching := m.first.length
    let crossed := ((m.first.zip m.ordered).countP fun p => p.1 ≠ p.2) / 2
    if matching = 0 then ⟨0, 1⟩
    else
      ⟨matching * b.length * matching + matching * a.length * matching +
          (matching - crossed) * a.length * b.length,
        a.length * b.length * matching⟩

def isClose (l : Likeness) : Bool := 21 * l.denominator < 10 * l.numerator

-- Of the words close to a given one the closest, of equals the last.
def closest {α : Type} (word : List Char) (name : α → List Char) (candidates : List α) : Option α :=
  (candidates.foldl (fun best x =>
    let l := ofWords word (name x)
    if !l.isClose then best
    else
      match best with
      | none => some (x, l)
      | some (y, k) => if k.le l then some (x, l) else some (y, k)) none).map Prod.fst

end Likeness

end TablePeek.CommandLine
