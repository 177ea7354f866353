import Mathlib.Data.Fintype.EquivFin
import Mathlib.Logic.Function.Iterate
import Mathlib.Order.Interval.Set.Defs
import TablePeek.Proofs.AccessLog.Draws

set_option autoImplicit false

namespace TablePeek.Generator

open Function (Injective Bijective)

section Mixing

-- What the shift takes away is known from the bits above it.
theorem shifted_injective (k : UInt64) (moves : 0 < k.toNat % 64) : Injective fun z : UInt64 => z ^^^ (z >>> k) := by
  intro y z (same : y ^^^ (y >>> k) = z ^^^ (z >>> k))
  have fixed : (y ^^^ z) >>> k = y ^^^ z := by
    have both : (y ^^^ z) ^^^ ((y ^^^ z) >>> k) = (y ^^^ (y >>> k)) ^^^ (z ^^^ (z >>> k)) := by
      rw [UInt64.shiftRight_xor]
      ac_rfl
    rw [same, UInt64.xor_self, UInt64.xor_eq_zero_iff] at both
    exact both.symm
  have halved := congrArg UInt64.toNat fixed
  rw [UInt64.toNat_shiftRight, Nat.shiftRight_eq_div_pow] at halved
  have none : (y ^^^ z).toNat = 0 := by
    by_contra some
    exact absurd halved (Nat.div_lt_self (Nat.pos_of_ne_zero some) (Nat.one_lt_two_pow moves.ne')).ne
  exact UInt64.xor_eq_zero_iff.mp (UInt64.toNat_inj.mp none)

theorem times_injective (c inverse : UInt64) (unit : c * inverse = 1) : Injective fun z : UInt64 => z * c := by
  intro y z (same : y * c = z * c)
  rw [← UInt64.mul_one y, ← UInt64.mul_one z, ← unit, ← UInt64.mul_assoc, ← UInt64.mul_assoc, same]

theorem mix_injective : Injective mix := by
  have first := times_injective 0xBF58476D1CE4E5B9 0x96DE1B173F119089 (by decide)
  have second := times_injective 0x94D049BB133111EB 0x319642B2D24D8EC3 (by decide)
  have last := shifted_injective 31 (by decide)
  exact last.comp (second.comp ((shifted_injective 27 (by decide)).comp (first.comp (shifted_injective 30 (by decide)))))

theorem mix_bijective : Bijective mix := by
  have finite : Finite UInt64 := Finite.of_injective UInt64.toFin fun _ _ => UInt64.toFin_inj.mp
  exact Finite.injective_iff_bijective.mp mix_injective

end Mixing

section Counting

def after (g : Generator) (draws : Nat) : Generator := (fun h => h.next.2)^[draws] g

def draw (g : Generator) (before : Nat) : UInt64 := (g.after before).next.1

variable (g h : Generator)

theorem after_skip (n : Nat) : g.after n = g.skip n := by
  induction n with
  | zero => exact (skip_none g).symm
  | succ n ih =>
    have last : g.after (n + 1) = (g.after n).step := Function.iterate_succ_apply' _ _ _
    rw [last, ih, step_skip, skip_skip]

theorem step_bijective : Bijective step := by
  refine ⟨fun g h same => ?_, fun g => ⟨⟨g.state - increment⟩, ?_⟩⟩
  · have states : g.state + increment = h.state + increment := congrArg state same
    exact congrArg mk ((UInt64.add_left_inj increment).mp states)
  · rw [step, UInt64.sub_add_cancel]

theorem skip_same_iff (m n : Nat) : g.skip m = g.skip n ↔ m % 0x10000000000000000 = n % 0x10000000000000000 := by
  have words : UInt64.ofNat m = UInt64.ofNat n ↔ m % 0x10000000000000000 = n % 0x10000000000000000 := by
    rw [← UInt64.toNat_inj, UInt64.toNat_ofNat', UInt64.toNat_ofNat']
  have counted := (times_injective increment 0xF1DE83E19937733D (by decide)).eq_iff
    (a := UInt64.ofNat m) (b := UInt64.ofNat n)
  rw [skip, skip, mk.injEq, UInt64.add_right_inj, ← words]
  exact counted

def distance : Nat := ((h.state - g.state) * 0xF1DE83E19937733D).toNat

theorem skip_distance : g.skip (g.distance h) = h := by
  have undone : (h.state - g.state) * 0xF1DE83E19937733D * increment = h.state - g.state := by
    rw [UInt64.mul_assoc, show (0xF1DE83E19937733D : UInt64) * increment = 1 by decide, UInt64.mul_one]
  rw [skip, distance, UInt64.ofNat_toNat, undone, UInt64.add_comm, UInt64.sub_add_cancel]

theorem met_once : ∃! n, n < 0x10000000000000000 ∧ g.after n = h := by
  have near : g.distance h < 0x10000000000000000 := UInt64.toNat_lt _
  refine ⟨g.distance h, ⟨near, (after_skip g _).trans (skip_distance g h)⟩, ?_⟩
  rintro n ⟨few, met⟩
  rw [after_skip, ← skip_distance g h, skip_same_iff, Nat.mod_eq_of_lt few, Nat.mod_eq_of_lt near] at met
  exact met

theorem full_turn : g.after 0x10000000000000000 = g := by
  rw [after_skip]
  exact ((skip_same_iff g _ 0).mpr rfl).trans (skip_none g)

theorem next_injective {g h : Generator} (same : g.next.1 = h.next.1) : g = h := by
  have states : g.step = h.step := congrArg mk (mix_injective same)
  exact step_bijective.injective states

theorem draws_distinct (k : Nat) : Set.InjOn g.draw (Set.Ico k (k + 0x10000000000000000)) := by
  rintro i ⟨least, most⟩ j ⟨otherLeast, otherMost⟩ same
  have met := next_injective same
  rw [after_skip, after_skip, skip_same_iff] at met
  omega

end Counting

/-- Different states give different numbers and go over to different states. Of the first 2 ^ 64 states from a seed
on, every state is one, and just once, and then the seed comes again; so of as many draws in a row no two are
alike. -/
theorem repeats_only_in_full_turns :
    (∀ g h : Generator, g ≠ h → g.next.1 ≠ h.next.1 ∧ g.next.2 ≠ h.next.2) ∧ Bijective mix ∧ Bijective step ∧
      (∀ g : Generator, (∀ h, ∃! n, n < 0x10000000000000000 ∧ g.after n = h) ∧ g.after 0x10000000000000000 = g) ∧
      ∀ (g : Generator) (k : Nat), Set.InjOn g.draw (Set.Ico k (k + 0x10000000000000000)) := by
  refine ⟨fun g h other => ⟨fun same => ?_, fun same => ?_⟩, mix_bijective, step_bijective,
    fun g => ⟨met_once g, full_turn g⟩, draws_distinct⟩
  · exact other (next_injective same)
  · exact other (step_bijective.injective same)

theorem far_draws_differ :
    (⟨0⟩ : Generator) ≠ ⟨1⟩ ∧ (⟨0⟩ : Generator).next.1 ≠ (⟨1⟩ : Generator).next.1 ∧
      (⟨42⟩ : Generator).draw 3 ≠ (⟨42⟩ : Generator).draw 0x10000000000000002 := by
  obtain ⟨apart, _, _, _, distinct⟩ := repeats_only_in_full_turns
  have other : (⟨0⟩ : Generator) ≠ ⟨1⟩ := by decide
  refine ⟨other, (apart _ _ other).1, fun same => ?_⟩
  have early : 3 ∈ Set.Ico 3 (3 + 0x10000000000000000) := ⟨by decide, by decide⟩
  have late : 0x10000000000000002 ∈ Set.Ico 3 (3 + 0x10000000000000000) := ⟨by decide, by decide⟩
  exact absurd (distinct ⟨42⟩ 3 early late same) (by decide)

end TablePeek.Generator
