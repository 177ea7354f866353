import TablePeek.Proofs.Number.Grammar
import TablePeek.Proofs.Number.Shortest
import TablePeek.Proofs.NumberReaders

set_option autoImplicit false

namespace TablePeek

theorem Spelled.value_of (w : Spelled) (d : Decimal) (k : Nat) (digits : Digits.toNat w.digits = d.coefficient * 10 ^ k)
    (exponent : w.exponent - (w.decimals.getD []).length + k = d.exponent) : w.value = d.value := by
  rw [value, scaled, digits, Decimal.value, ← exponent, Int.add_comm, zpow_add₀ (by norm_num), zpow_natCast, Nat.cast_mul,
    Nat.cast_pow, Nat.cast_ofNat, mul_assoc]

theorem Spelled.full_of_none {w : Spelled} (none : w.power = none) : w.InFull := by
  refine .inr fun p some => ?_
  rw [none] at some
  cases some

namespace Layout

def power (plus : Bool) (e : Int) : Power where
  capital := false
  sign := if e < 0 then some true else if plus then some false else none
  digits := Digits.ofNat e.natAbs
  all_digits := Digits.of_nat_all_digits _

theorem power_text (plus : Bool) (e : Int) :
    (power plus e).toText = 'e' :: (if plus && 0 ≤ e then ['+'] else []) ++ Digits.ofInt e := by
  rw [power, Power.toText, Digits.ofInt]
  by_cases negative : e < 0
  · have no : ¬ 0 ≤ e := Int.not_le.mpr negative
    simp [negative, no, Power.signText]
  · have yes : 0 ≤ e := Int.not_lt.mp negative
    cases plus <;> simp [negative, yes, Power.signText]

theorem power_value (plus : Bool) (e : Int) : (power plus e).value = e := by
  rw [Power.value, Power.signed, Power.down, Power.size, power]
  simp only [Digits.of_nat_value, decide_eq_true_eq]
  by_cases negative : e < 0
  · rw [if_pos negative, if_pos rfl]
    omega
  · rw [if_neg negative, if_neg (by cases plus <;> decide)]
    omega

-- A text that stands for a decimal, its exponent counted in full if the decimal is not past all numbers. A layout with a
-- decimal place never leaves only digits.
def Shows (l : Layout) (d : Decimal) (cs : List Char) : Prop :=
  ∃ w : Spelled, cs = w.toText ∧ w.value = d.value ∧ (l.decimalPlace = true → w.decimals ≠ none ∨ w.power ≠ none) ∧
    (d.point ≤ 310 → w.InFull)

theorem full_of_one_digit {w : Spelled} {p : Power} (marked : w.power = some p) (one : w.whole.length = 1)
    (low : p.value < 655360) : w.InFull := by
  refine .inr fun p' some => ?_
  obtain rfl : p = p' := Option.some.inj (marked.symm.trans some)
  rw [Power.value, Power.signed] at low
  split
  · rw [one]
    exact .inr (by decide)
  · rename_i up
    rw [if_neg up] at low
    exact .inl (by omega)

section Digits

variable (l : Layout) (d : Decimal) {ds : List Char} (written : ds = Digits.ofNat d.coefficient) (p : Int)
  (point : p = ds.length + d.exponent)
include written point

theorem before_shows (before : p ≤ 0) : l.Shows d ('0' :: '.' :: List.replicate (-p).toNat '0' ++ ds) := by
  have digits : ∀ c ∈ List.replicate (-p).toNat '0' ++ ds, c.isDigit = true :=
    List.forall_mem_append.mpr ⟨Digits.zeros_digits _, written ▸ Digits.of_nat_digits _⟩
  refine ⟨⟨['0'], some (List.replicate (-p).toNat '0' ++ ds), none, Digits.zeros_digits 1, digits, List.cons_ne_nil _ _⟩, ?_, ?_,
    fun _ => .inl (Option.some_ne_none _), fun _ => Spelled.full_of_none rfl⟩
  · simp [Spelled.toText, Spelled.fractionText, Spelled.powerText]
  · apply Spelled.value_of _ d 0
    · change Digits.toNat (List.replicate (-p).toNat '0' ++ ds) = d.coefficient * 1
      rw [Digits.to_nat_zeros_front, written, Digits.of_nat_value, Nat.mul_one]
    · change 0 - ((List.replicate (-p).toNat '0' ++ ds).length : Int) + (0 : Nat) = d.exponent
      rw [List.length_append, List.length_replicate]
      omega

theorem whole_shows (all : ds.length ≤ p.toNat) (after : 0 < p) : l.Shows d
    (ds ++ List.replicate (p.toNat - ds.length) '0' ++ (if l.decimalPlace then ['.', '0'] else [])) := by
  have digits : ∀ c ∈ ds ++ List.replicate (p.toNat - ds.length) '0', c.isDigit = true :=
    List.forall_mem_append.mpr ⟨written ▸ Digits.of_nat_digits _, Digits.zeros_digits _⟩
  have nonempty : ds ≠ [] := written ▸ Digits.of_nat_nonempty _
  have value : Digits.toNat ds = d.coefficient := written ▸ Digits.of_nat_value _
  cases place : l.decimalPlace with
  | false =>
    refine ⟨⟨ds ++ List.replicate (p.toNat - ds.length) '0', none, none, digits, by simp, by simp [nonempty]⟩, ?_, ?_,
      fun more => (by rw [place] at more; cases more), fun _ => Spelled.full_of_none rfl⟩
    · simp [Spelled.toText, Spelled.fractionText, Spelled.powerText]
    · apply Spelled.value_of _ d (p.toNat - ds.length)
      · change Digits.toNat (ds ++ List.replicate (p.toNat - ds.length) '0' ++ []) = _
        rw [List.append_nil, Digits.to_nat_zeros_behind, value]
      · change 0 - ((0 : Nat) : Int) + (p.toNat - ds.length : Nat) = d.exponent
        omega
  | true =>
    refine ⟨⟨ds ++ List.replicate (p.toNat - ds.length) '0', some ['0'], none, digits, Digits.zeros_digits 1, by simp⟩, ?_, ?_,
      fun _ => .inl (Option.some_ne_none _), fun _ => Spelled.full_of_none rfl⟩
    · simp [Spelled.toText, Spelled.fractionText, Spelled.powerText]
    · apply Spelled.value_of _ d (p.toNat - ds.length + 1)
      · change Digits.toNat (ds ++ List.replicate (p.toNat - ds.length) '0' ++ ['0']) = _
        rw [List.append_assoc, ← List.replicate_succ', Digits.to_nat_zeros_behind, value]
      · change 0 - ((1 : Nat) : Int) + (p.toNat - ds.length + 1 : Nat) = d.exponent
        omega

theorem inside_shows (inside : p.toNat < ds.length) (after : 0 < p) :
    l.Shows d (ds.take p.toNat ++ '.' :: ds.drop p.toNat) := by
  have digits : ∀ c ∈ ds, c.isDigit = true := written ▸ Digits.of_nat_digits _
  have value : Digits.toNat ds = d.coefficient := written ▸ Digits.of_nat_value _
  refine ⟨⟨ds.take p.toNat, some (ds.drop p.toNat), none, fun c member => digits c (List.mem_of_mem_take member),
    fun c member => digits c (List.mem_of_mem_drop member), ?_⟩, ?_, ?_, fun _ => .inl (Option.some_ne_none _),
    fun _ => Spelled.full_of_none rfl⟩
  · change ds.take p.toNat ++ ds.drop p.toNat ≠ []
    rw [List.take_append_drop, written]
    exact Digits.of_nat_nonempty _
  · simp [Spelled.toText, Spelled.fractionText, Spelled.powerText]
  · apply Spelled.value_of _ d 0
    · change Digits.toNat (ds.take p.toNat ++ ds.drop p.toNat) = d.coefficient * 1
      rw [List.take_append_drop, value, Nat.mul_one]
    · change 0 - ((ds.drop p.toNat).length : Int) + (0 : Nat) = d.exponent
      rw [List.length_drop]
      omega

theorem positional_shows : l.Shows d (l.writePositional ds p) := by
  rw [writePositional]
  split
  · exact before_shows l d written p point ‹_›
  · rename_i after
    split
    · exact whole_shows l d written p point ‹_› (Int.not_le.mp after)
    · exact inside_shows l d written p point (Nat.not_le.mp ‹_›) (Int.not_le.mp after)

theorem scientific_shows : l.Shows d (l.writeScientific ds p) := by
  have digits : ∀ c ∈ ds, c.isDigit = true := written ▸ Digits.of_nat_digits _
  have value : Digits.toNat ds = d.coefficient * 1 := by rw [written, Digits.of_nat_value, Nat.mul_one]
  obtain ⟨first, rest, rfl⟩ := List.exists_cons_of_ne_nil (written ▸ Digits.of_nat_nonempty d.coefficient : ds ≠ [])
  have one : ∀ c ∈ [first], c.isDigit = true := List.forall_mem_singleton.mpr (digits first List.mem_cons_self)
  have others : ∀ c ∈ rest, c.isDigit = true := fun c member => digits c (List.mem_cons_of_mem _ member)
  obtain ⟨mark, text, exponent⟩ : ∃ mark : Power, mark.toText =
      'e' :: (if l.exponentPlus && 0 ≤ p - 1 then ['+'] else []) ++ Digits.ofInt (p - 1) ∧ mark.value = p - 1 :=
    ⟨_, power_text l.exponentPlus (p - 1), power_value l.exponentPlus (p - 1)⟩
  have below : d.point ≤ 310 → mark.value < 655360 := by
    rw [exponent, Decimal.point, Digits.count, ← written, point]
    omega
  rw [List.length_cons] at point
  rw [writeScientific]
  cases rest with
  | nil =>
    refine ⟨⟨[first], none, some mark, one, others, List.cons_ne_nil _ _⟩, ?_, ?_, fun _ => .inr (Option.some_ne_none _),
      fun inside => full_of_one_digit rfl rfl (below inside)⟩
    · simp [Spelled.toText, Spelled.fractionText, Spelled.powerText, text]
    · refine Spelled.value_of _ d 0 value ?_
      change mark.value - ((0 : Nat) : Int) + (0 : Nat) = d.exponent
      rw [List.length_nil] at point
      omega
  | cons second rest =>
    refine ⟨⟨[first], some (second :: rest), some mark, one, others, List.cons_ne_nil _ _⟩, ?_, ?_,
      fun _ => .inr (Option.some_ne_none _), fun inside => full_of_one_digit rfl rfl (below inside)⟩
    · simp [Spelled.toText, Spelled.fractionText, Spelled.powerText, text]
    · refine Spelled.value_of _ d 0 value ?_
      change mark.value - ((second :: rest).length : Int) + (0 : Nat) = d.exponent
      omega

end Digits

theorem decimal_shows (l : Layout) (d : Decimal) : l.Shows d (l.writeDecimal d) := by
  unfold writeDecimal
  simp only
  split
  · exact positional_shows l d rfl d.point rfl
  · exact scientific_shows l d rfl d.point rfl

theorem sign_text (negative : Bool) : sign negative = Power.signText (if negative then some true else none) := by
  cases negative <;> rfl

theorem shortest_nearest (tie : Tie) (negative : Bool) (m : Magnitude) :
    Numeral.nearest ⟨negative, (m.shortest tie).coefficient, (m.shortest tie).exponent⟩ = .finite negative m := by
  rw [Numeral.nearest_ratio]
  apply Binary64.of_ratio_around (Numeral.den_positive _)
  rw [Numeral.ratio_value]
  exact m.shortest_around tie

theorem shortest_point (tie : Tie) (m : Magnitude) : (m.shortest tie).point ≤ 310 := by
  by_cases zero : (m.shortest tie).coefficient = 0
  · rw [(m.shortest_last tie).resolve_right (by rw [zero]; exact absurd rfl), Decimal.point, Digits.count, Digits.of_nat_zero]
    decide
  · apply Int.not_lt.mp
    intro past
    have infinite := Numeral.nearest_past ⟨false, _, _⟩ zero past
    rw [shortest_nearest] at infinite
    cases infinite

theorem finite_shown (l : Layout) (negative : Bool) (m : Magnitude) : ∃ w : Spelled,
    l.write (.finite negative m) = Power.signText (if negative then some true else none) ++ w.toText ∧
    Binary64.Rounded negative w.value (.finite negative m) ∧ w.InFull ∧
    (l.decimalPlace = true → w.decimals ≠ none ∨ w.power ≠ none) := by
  obtain ⟨w, text, value, place, full⟩ := l.decimal_shows (m.shortest l.tie)
  refine ⟨w, ?_, ?_, full (shortest_point l.tie m), place⟩
  · rw [write, text, sign_text]
  · rw [value]
    exact (Numeral.nearest_rounded _ _).mpr (shortest_nearest l.tie negative m)

theorem write_read (l : Layout) (x : Binary64) : Binary64.read? (l.write x) = some x := by
  cases x with
  | nan =>
    change Binary64.read? "NaN".toList = some .nan
    decide
  | infinity negative =>
    change Binary64.read? (sign negative ++ "inf".toList) = some (.infinity negative)
    cases negative <;> decide
  | finite negative m =>
    obtain ⟨w, text, rounded, full, _⟩ := l.finite_shown negative m
    have same : decide ((if negative then some true else none) = some true) = negative := by cases negative <;> rfl
    rw [text, w.read_in_full full, same]
    exact rounded

theorem place_no_integer (l : Layout) (place : l.decimalPlace = true) (x : Binary64) : readInt64? (l.write x) = none := by
  cases x with
  | nan =>
    change readInt64? "NaN".toList = none
    decide
  | infinity negative =>
    change readInt64? (sign negative ++ "inf".toList) = none
    cases negative <;> decide
  | finite negative m =>
    obtain ⟨w, text, _, _, more⟩ := l.finite_shown negative m
    rw [text]
    simp only [readInt64?, Power.split_signed _ w.text_bare, w.not_only_digits (more place), Bool.false_eq_true, if_false]

end Layout

theorem Binary64.of_ratio_zero (negative : Bool) : ofRatio negative 0 1 = .zero negative := by
  have nearest := Numeral.nearest_ratio ⟨negative, 0, 0⟩
  rw [Numeral.nearest, if_pos rfl] at nearest
  exact nearest.symm

theorem whole_read_alike {cs : List Char} {i : Int64} {x : Binary64} (whole : readInt64? cs = some i)
    (read : Binary64.read? cs = some x) : Cell.SameNumber (.float (.ofInt i.toInt)) (.float x) := by
  obtain ⟨sign, ds, rfl, nonempty, digits, value⟩ := (read_int64_iff i).mp whole
  have rounded : Binary64.Rounded (sign = some true) (Spelled.ofDigits ds nonempty digits).value x := by
    rw [← Spelled.of_digits_text ds nonempty digits] at read
    exact (Spelled.read_in_full _ (Spelled.of_digits_full ds nonempty digits) sign x).mp read
  have natural : (Digits.toNat ds : ℚ) = (Digits.toNat ds : ℚ) / (1 : Nat) := by rw [Nat.cast_one, div_one]
  rw [Spelled.of_digits_value, natural] at rounded
  obtain rfl := Binary64.rounded_of_ratio Nat.one_pos rounded
  generalize Digits.toNat ds = n at value
  by_cases zero : n = 0
  · have none : i.toInt = 0 := by
      rw [value, zero]
      split <;> rfl
    rw [zero, none, Binary64.ofInt, Int.natAbs_zero, Binary64.of_ratio_zero, Binary64.of_ratio_zero]
    exact .inl ⟨0, Binary64.zero_rational _, Binary64.zero_rational _⟩
  · have negative : sign = some true ↔ i.toInt < 0 := by
      rw [value]
      split
      · exact iff_of_true ‹_› (by omega)
      · exact iff_of_false ‹_› (by omega)
    have size : n = i.toInt.natAbs := by
      rw [value]
      split <;> omega
    rw [decide_eq_decide.mpr negative, size]
    exact Cell.same_float (Binary64.of_ratio_place _ _ _)

theorem point_no_integer {cs : List Char} (point : '.' ∈ cs) : readInt64? cs = none := by
  rw [Option.eq_none_iff_forall_ne_some]
  intro i read
  obtain ⟨sign, ds, rfl, _, digits, _⟩ := (read_int64_iff i).mp read
  rcases List.mem_append.mp point with inSign | inDigits
  · match sign with
    | some true => exact absurd inSign (by decide)
    | some false => exact absurd inSign (by decide)
    | none => exact absurd inSign (by decide)
  · exact absurd (digits '.' inDigits) (by decide)

theorem plain_integer_text {x : Binary64} {i : Int64} (read : readInt64? (Layout.plain.write x) = some i) :
    Digits.ofInt i.toInt = Layout.plain.write x ∨ x = .zero true := by
  have number := Layout.plain.write_read x
  have shape := Layout.plain_positional x
  rw [written_back_iff read]
  generalize Layout.plain.write x = cs at number shape read ⊢
  cases shape with
  | nan =>
    rw [show readInt64? "NaN".toList = none by decide] at read
    cases read
  | infinity negative =>
    rw [show readInt64? (Layout.sign negative ++ "inf".toList) = none by cases negative <;> decide] at read
    cases read
  | whole negative ds tight =>
    by_cases alone : negative = true ∧ ds = ['0']
    · obtain ⟨rfl, rfl⟩ := alone
      have zero : Binary64.read? "-0".toList = some (.zero true) := by decide
      exact .inr (Option.some.inj (number.symm.trans zero))
    · left
      cases negative with
      | false => exact .inl tight
      | true => exact .inr ⟨ds, rfl, tight, fun zero => alone ⟨rfl, zero⟩⟩
  | fraction negative ds decimals =>
    rw [point_no_integer (by simp)] at read
    cases read

end TablePeek
