import TablePeek.Proofs.Number.Rounding
import TablePeek.Proofs.Number.Spelled

set_option autoImplicit false

namespace TablePeek

namespace Numeral

variable {negative : Bool} {cs : List Char}

theorem exponent_text {e : Int} (read : exponent? cs = some e) :
    ∃ power : Option Power, cs = (power.map Power.toText).getD [] ∧ e = (power.map Power.counted).getD 0 := by
  cases cs with
  | nil => exact ⟨none, rfl, (Option.some.inj read).symm⟩
  | cons c rest =>
    obtain ⟨sign, ds, written, parts⟩ := Power.sign_in_front rest
    rw [exponent?, Option.ite_none_right_eq_some, parts] at read
    obtain ⟨mark, read⟩ := read
    simp only [Option.ite_none_right_eq_some, Option.some.injEq] at read
    obtain ⟨digits, rfl⟩ := read
    refine ⟨some ⟨c = 'E', sign, ds, digits⟩, ?_, rfl⟩
    rcases mark with rfl | rfl <;> exact congrArg _ written

theorem fraction_text (cs : List Char) : ∃ decimals : Option (List Char), (∀ c ∈ decimals.getD [], c.isDigit = true) ∧
    (fraction cs).1 = decimals.getD [] ∧ cs = (decimals.map ('.' :: ·)).getD [] ++ (fraction cs).2 := by
  unfold fraction
  split
  · rename_i rest
    refine ⟨some (rest.takeWhile Char.isDigit), List.all_eq_true.mp List.all_takeWhile, rfl, ?_⟩
    exact congrArg _ List.takeWhile_append_dropWhile.symm
  · exact ⟨none, fun _ none => absurd none List.not_mem_nil, rfl, rfl⟩

theorem unsigned_text {n : Numeral} (read : unsigned? negative cs = some n) :
    ∃ w : Spelled, cs = w.toText ∧ n = w.numeral negative w.counted := by
  obtain ⟨decimals, digits, first, second⟩ := fraction_text (cs.dropWhile Char.isDigit)
  rw [unsigned?] at read
  generalize fraction (cs.dropWhile Char.isDigit) = parts at first second read
  obtain ⟨_, tail⟩ := parts
  obtain rfl := first
  rw [Option.ite_none_left_eq_some] at read
  obtain ⟨some, read⟩ := read
  obtain ⟨e, exponent, rfl⟩ := Option.map_eq_some_iff.mp read
  obtain ⟨power, rfl, rfl⟩ := exponent_text exponent
  refine ⟨⟨cs.takeWhile Char.isDigit, decimals, power, List.all_eq_true.mp List.all_takeWhile, digits, ?_⟩, ?_, rfl⟩
  · exact mt (both_empty _ _).mpr some
  · rw [Spelled.toText, Spelled.fractionText, Spelled.powerText, ← second, List.takeWhile_append_dropWhile]

theorem ratio_value (n : Numeral) : (n.num : ℚ) / n.den = n.coefficient * 10 ^ n.exponent := by
  push_cast [num, den]
  rw [mul_div_assoc, power_ratio]

theorem nearest_rounded (n : Numeral) (x : Binary64) :
    Binary64.Rounded n.negative (n.coefficient * 10 ^ n.exponent) x ↔ n.nearest = x := by
  rw [← n.ratio_value, Binary64.rounded_iff n.den_positive, n.nearest_ratio, eq_comm]

end Numeral

namespace Spelled

variable (w : Spelled) (negative : Bool)

theorem rounded_iff (e : Int) (x : Binary64) :
    Binary64.Rounded negative (w.scaled e) x ↔ (w.numeral negative e).nearest = x := (w.numeral negative e).nearest_rounded x

theorem read_in_full (full : w.InFull) (sign : Option Bool) (x : Binary64) :
    Binary64.read? (Power.signText sign ++ w.toText) = some x ↔ Binary64.Rounded (sign = some true) w.value x := by
  rw [w.read, w.counted_nearest _ full, Option.some.injEq]
  exact (w.rounded_iff _ _ x).symm

end Spelled

section Whole

variable (ds : List Char) (nonempty : ds ≠ []) (digits : ∀ c ∈ ds, c.isDigit = true)

def Spelled.ofDigits : Spelled :=
  ⟨ds, none, none, digits, fun _ none => absurd none List.not_mem_nil, List.append_ne_nil_of_left_ne_nil nonempty _⟩

theorem Spelled.of_digits_text : (Spelled.ofDigits ds nonempty digits).toText = ds := List.append_nil ds

theorem Spelled.of_digits_value : (Spelled.ofDigits ds nonempty digits).value = Digits.toNat ds := by
  have all : (Spelled.ofDigits ds nonempty digits).digits = ds := List.append_nil ds
  have exponent : (Spelled.ofDigits ds nonempty digits).exponent = 0 := rfl
  have decimals : (Spelled.ofDigits ds nonempty digits).decimals = none := rfl
  rw [value, scaled, all, exponent, decimals, Option.getD_none, List.length_nil, Nat.cast_zero, sub_zero, zpow_zero, mul_one]

theorem Spelled.of_digits_full : (Spelled.ofDigits ds nonempty digits).InFull := .inr fun _ none => by cases none

end Whole

def SpellsInteger (cs : List Char) (i : Int) : Prop :=
  ∃ (sign : Option Bool) (ds : List Char), cs = Power.signText sign ++ ds ∧ ds ≠ [] ∧ (∀ c ∈ ds, c.isDigit = true) ∧
    i = if sign = some true then -(Digits.toNat ds : Int) else Digits.toNat ds

inductive SpellsFloat : List Char → Binary64 → Prop where
  | numeral (sign : Option Bool) (w : Spelled) (e : Int) (counts : w.Counts e) (x : Binary64)
      (rounded : Binary64.Rounded (sign = some true) (w.scaled e) x) : SpellsFloat (Power.signText sign ++ w.toText) x
  | infinity (sign : Option Bool) (word : List Char)
      (named : word.map Char.toLower = "inf".toList ∨ word.map Char.toLower = "infinity".toList) :
    SpellsFloat (Power.signText sign ++ word) (.infinity (sign = some true))
  | nan (sign : Option Bool) (word : List Char) (named : word.map Char.toLower = "nan".toList) :
    SpellsFloat (Power.signText sign ++ word) .nan

section Readers

variable {cs : List Char}

theorem read_int64_iff (i : Int64) : readInt64? cs = some i ↔ SpellsInteger cs i.toInt := by
  constructor
  · intro read
    have value := read_int64_value read
    obtain ⟨sign, ds, written, parts⟩ := Power.sign_in_front cs
    simp only [readInt64?, parts, Option.ite_none_right_eq_some] at read
    obtain ⟨nonempty, digits⟩ := (Digits.all_digits_iff ds).mp read.1
    rw [parts] at value
    simp only [decide_eq_true_eq] at value
    exact ⟨sign, ds, written, nonempty, digits, value⟩
  · rintro ⟨sign, ds, rfl, nonempty, digits, value⟩
    have bare := Power.split_signed sign fun c head => Digits.digit_not_sign c (digits c (List.mem_of_mem_head? head))
    have all := (Digits.all_digits_iff ds).mpr ⟨nonempty, digits⟩
    have low := Int64.le_toInt i
    have high := Int64.toInt_lt i
    simp only [readInt64?, bare, all, if_true, decide_eq_true_eq, ← value]
    rw [if_pos ⟨low, high⟩, Int64.ofInt_toInt]

theorem digit_no_letter (c : Char) (digit : c.isDigit = true) : c.toLower.isAlpha = false := by
  have small := Digits.digit_value_lt c digit
  have below : ∀ d < 10, (Digits.char d).toLower.isAlpha = false := by decide
  have same := Digits.char_of_value c digit (Digits.value c) (Nat.mod_eq_of_lt small)
  exact same ▸ below _ small

-- A name begins with a letter, so that it is no numeral and has no second sign.
theorem word_head {word name : List Char} (named : word.map Char.toLower = name)
    (letter : name.head?.all Char.isAlpha = true) :
    ∀ c ∈ word.head?, c.isDigit = false ∧ c ≠ '.' ∧ c ≠ '-' ∧ c ≠ '+' := by
  intro c head
  have small : c.toLower.isAlpha = true := by
    rwa [← named, List.head?_map, head] at letter
  have other : ∀ d : Char, d.toLower.isAlpha = false → c ≠ d := by
    rintro d mark rfl
    rw [small] at mark
    cases mark
  refine ⟨Bool.eq_false_iff.mpr fun digit => ?_, other '.' rfl, other '-' rfl, other '+' rfl⟩
  exact other c (digit_no_letter c digit) rfl

theorem unsigned_none (negative : Bool) (bare : ∀ c ∈ cs.head?, c.isDigit = false ∧ c ≠ '.') :
    Numeral.unsigned? negative cs = none := by
  cases read : Numeral.unsigned? negative cs with
  | none => rfl
  | some n =>
    obtain ⟨w, rfl, _⟩ := Numeral.unsigned_text read
    obtain ⟨c, rest, shape, start⟩ := w.text_start
    obtain ⟨noDigit, noPoint⟩ := bare c (by rw [shape]; rfl)
    rcases start with digit | point
    · rw [digit] at noDigit
      cases noDigit
    · exact absurd point noPoint

theorem word_read (sign : Option Bool) {word name : List Char} (named : word.map Char.toLower = name)
    (letter : name.head?.all Char.isAlpha = true) :
    Binary64.read? (Power.signText sign ++ word) = Binary64.named? (sign = some true) word := by
  have head := word_head named letter
  have split := Power.split_signed sign fun c first => (head c first).2.2
  have none := unsigned_none (sign = some true) fun c first => ⟨(head c first).1, (head c first).2.1⟩
  simp only [Binary64.read?, split, none, Option.map_none, Option.none_or]

theorem read_binary64_iff (x : Binary64) : Binary64.read? cs = some x ↔ SpellsFloat cs x := by
  constructor
  · intro read
    obtain ⟨sign, rest, rfl, split⟩ := Power.sign_in_front cs
    rw [Binary64.read?, split] at read
    simp only [Option.or_eq_some_iff, Option.map_eq_some_iff] at read
    rcases read with ⟨n, numeral, rfl⟩ | ⟨_, named⟩
    · obtain ⟨w, rfl, rfl⟩ := Numeral.unsigned_text numeral
      exact .numeral sign w _ ((w.counts_iff _).mpr rfl) _ ((w.rounded_iff _ _ _).mpr rfl)
    · unfold Binary64.named? at named
      simp only at named
      split at named
      · rename_i word
        cases named
        exact .infinity sign rest word
      · rw [Option.ite_none_right_eq_some] at named
        obtain ⟨word, same⟩ := named
        cases same
        exact .nan sign rest word
  · rintro (⟨sign, w, e, counts, x, rounded⟩ | ⟨sign, word, named⟩ | ⟨sign, word, named⟩)
    · obtain rfl := (w.counts_iff e).mp counts
      rw [w.read, (w.rounded_iff _ _ x).mp rounded]
    · have read : Binary64.read? (Power.signText sign ++ word) = Binary64.named? (sign = some true) word := by
        rcases named with short | long
        · exact word_read sign short (by decide)
        · exact word_read sign long (by decide)
      rw [read, Binary64.named?]
      exact if_pos named
    · rw [word_read sign named (by decide), Binary64.named?]
      simp only [named]
      rfl

end Readers

end TablePeek
