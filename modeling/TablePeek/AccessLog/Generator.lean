set_option autoImplicit false

namespace TablePeek

structure Generator where
  state : UInt64
deriving DecidableEq, Repr

namespace Generator

def increment : UInt64 := 0x9E3779B97F4A7C15

def mix (z : UInt64) : UInt64 :=
  let z := (z ^^^ (z >>> 30)) * 0xBF58476D1CE4E5B9
  let z := (z ^^^ (z >>> 27)) * 0x94D049BB133111EB
  z ^^^ (z >>> 31)

def step (g : Generator) : Generator := ⟨g.state + increment⟩

def next (g : Generator) : UInt64 × Generator := (mix g.step.state, g.step)

def below (g : Generator) (n : UInt64) : Nat × Generator :=
  let (x, g) := g.next
  ((x % n).toNat, g)

def pick {α : Type} (g : Generator) (default : α) (items : List α) : α × Generator :=
  let (i, g) := g.below (UInt64.ofNat items.length)
  (items.getD i default, g)

end Generator

end TablePeek
