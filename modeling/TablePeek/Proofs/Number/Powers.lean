import TablePeek.Proofs.Number.Places

set_option autoImplicit false

namespace TablePeek

namespace Magnitude

-- The whole part of the power of two that a power of ten is.
def tenBits (k : Nat) : Nat := k * 217706 / 65536

def power (k : Nat) : Nat := stepsInOne * 10 ^ k

def powerDropped (k : Nat) : Nat := 1022 + tenBits k

def powerKept (k : Nat) : Nat := divNearest (power k) (2 ^ powerDropped k)

-- What rounding a power of ten costs at most, in thousandths of one part in 2 ^ 53.
def powerShare (k : Nat) : Nat := if k ≤ 22 then 0 else if k < 308 then 907 else 99

theorem power_share_le (k : Nat) : (powerShare k : ℚ) ≤ 907 := by
  rw [powerShare]
  split
  · norm_num
  · split <;> norm_num

theorem powers_measured : ∀ k < 309,
    2 ^ (powerDropped k + 52) ≤ power k ∧ power k < 2 ^ (powerDropped k + 53) ∧
    0x10000000000000 * powerDropped k + powerKept k < lastPlace ∧
    1000 * 2 ^ 53 * (powerKept k * 2 ^ powerDropped k) ≤ (1000 * 2 ^ 53 + powerShare k) * power k ∧
    1000 * 2 ^ 53 * power k ≤ (1000 * 2 ^ 53 + powerShare k) * (powerKept k * 2 ^ powerDropped k) := by
  decide +kernel

theorem power_within (k : Nat) (listed : k ≤ 308) :
    ∃ p, nearest? (stepsInOne * 10 ^ k) 1 = some p ∧ 0 < p.steps ∧
      Within (1 + powerShare k / 1000 / 2 ^ 53) p.steps (stepsInOne * 10 ^ k) := by
  have ratio : (0 : ℚ) ≤ 1 + powerShare k / 1000 / 2 ^ 53 := by positivity
  obtain ⟨filled, few, inside, below, above⟩ := powers_measured k (by omega)
  have nonzero : power k ≠ 0 := Nat.ne_of_gt (Nat.lt_of_lt_of_le (Nat.two_pow_pos _) filled)
  have dropped : excess (power k) 1 = powerDropped k := by
    rw [excess, Nat.div_one, (Nat.log2_eq_iff nonzero).mpr ⟨filled, few⟩, Nat.add_sub_cancel]
  have rounded : kept (power k) 1 = powerKept k := by rw [kept, dropped, Nat.one_mul, powerKept]
  change ∃ p, nearest? (power k) 1 = some p ∧ _
  rcases nearest_cases (power k) 1 with ⟨p, found, _, steps, _⟩ | ⟨_, past⟩
  · refine ⟨p, found, ?_⟩
    have some : (0 : ℚ) < power k := by exact_mod_cast Nat.pos_of_ne_zero nonzero
    have exact : (power k : ℚ) = stepsInOne * 10 ^ k := by rw [power, Nat.cast_mul, Nat.cast_pow, Nat.cast_ofNat]
    have low : (1000 * 2 ^ 53 * p.steps : ℚ) ≤ (1000 * 2 ^ 53 + powerShare k) * power k := by
      rw [steps, dropped, rounded]
      exact_mod_cast below
    have high : (1000 * 2 ^ 53 * power k : ℚ) ≤ (1000 * 2 ^ 53 + powerShare k) * p.steps := by
      rw [steps, dropped, rounded]
      exact_mod_cast above
    have within : Within (1 + powerShare k / 1000 / 2 ^ 53) p.steps (power k) := by constructor <;> linarith
    have filled : (0 : ℚ) < p.steps := within.positive ratio some
    rw [exact] at within
    exact ⟨Nat.cast_pos.mp filled, within⟩
  · rw [placeOf, dropped, rounded] at past
    omega

end Magnitude

end TablePeek
