import TablePeek.Proofs.Number.Numeral

set_option autoImplicit false

namespace TablePeek

namespace Numeral

variable {decimals cs : List Char}

theorem fraction_point (digits : ∀ c ∈ decimals, c.isDigit = true) (stops : ∀ c ∈ cs.head?, c.isDigit = false) :
    fraction ('.' :: (decimals ++ cs)) = (decimals, cs) :=
  Prod.ext_iff.mpr (Digits.take_digits decimals cs digits stops)

theorem fraction_bare (bare : ∀ c ∈ cs.head?, c ≠ '.') : fraction cs = ([], cs) := by
  unfold fraction
  split
  · exact absurd rfl (bare '.' rfl)
  · rfl

end Numeral

structure Power where
  capital : Bool
  sign : Option Bool
  digits : List Char
  all_digits : Digits.allDigits digits = true
deriving DecidableEq, Repr

namespace Power

def signText : Option Bool → List Char
  | none => []
  | some true => ['-']
  | some false => ['+']

def toText (p : Power) : List Char := (if p.capital then 'E' else 'e') :: (signText p.sign ++ p.digits)

def down (p : Power) : Bool := p.sign = some true

def size (p : Power) : Nat := Digits.toNat p.digits

def signed (p : Power) (n : Nat) : Int := if p.down then -(n : Int) else n

def value (p : Power) : Int := p.signed p.size

-- None of the digits of an exponent counts past the limit.
def counted (p : Power) : Int := p.signed (Digits.foldBelow Numeral.exponentLimit 0 p.digits)

theorem split_signed {cs : List Char} (sign : Option Bool) (bare : ∀ c ∈ cs.head?, c ≠ '-' ∧ c ≠ '+') :
    Digits.splitSign (signText sign ++ cs) = (decide (sign = some true), cs) := by
  match sign with
  | some true => rfl
  | some false => rfl
  | none => exact Digits.split_sign_bare bare

theorem split_sign (p : Power) : Digits.splitSign (signText p.sign ++ p.digits) = (p.down, p.digits) :=
  split_signed p.sign fun c head =>
    Digits.digit_not_sign c (((Digits.all_digits_iff _).mp p.all_digits).2 c (List.mem_of_mem_head? head))

theorem sign_in_front (cs : List Char) :
    ∃ sign rest, cs = signText sign ++ rest ∧ Digits.splitSign cs = (decide (sign = some true), rest) := by
  unfold Digits.splitSign
  split
  · exact ⟨some true, _, rfl, rfl⟩
  · exact ⟨some false, _, rfl, rfl⟩
  · exact ⟨none, _, rfl, rfl⟩

variable (power : Option Power)

theorem text_stops : ∀ c ∈ ((power.map toText).getD []).head?, c.isDigit = false ∧ c ≠ '.' := by
  cases power with
  | none => simp
  | some p =>
    intro c head
    obtain rfl := Option.some.inj head
    cases p.capital <;> decide

theorem text_read : Numeral.exponent? ((power.map toText).getD []) = some ((power.map counted).getD 0) := by
  cases power with
  | none => rfl
  | some p =>
    have mark : ∀ capital : Bool, (if capital then 'E' else 'e') = 'e' ∨ (if capital then 'E' else 'e') = 'E' := by decide
    simp only [Option.map_some, Option.getD_some, toText, Numeral.exponent?, if_pos (mark p.capital), p.split_sign,
      p.all_digits, if_true]
    rfl

-- An exponent that counts in full; or one so large that the digits on the side it works against do not make up for what
-- is left of it, the decimals for a raising one and the whole digits for a lowering one.
def InFull (power : Option Power) (whole decimals : Nat) : Prop :=
  ∀ p ∈ power, p.size < 655360 ∨ (if p.down then whole else decimals) ≤ 65205

theorem counted_small (p : Power) (small : p.size < 655360) : p.counted = p.value := by
  rw [counted, Digits.fold_below_all 0 p.digits small]
  rfl

def leastCut (sign : Option Bool) : Power := ⟨false, sign, "655360".toList, by decide⟩

section Far

variable {n whole decimals e : Nat} (negative : Bool)

theorem far_down (digits : Digits.count n ≤ whole + decimals) (few : whole ≤ 65205) (far : 65536 ≤ e) :
    Numeral.nearest ⟨negative, n, -(e : Int) - decimals⟩ = .zero negative := by
  apply Numeral.nearest_before _
  change (Digits.count n : Int) + (-(e : Int) - decimals) < -330
  omega

theorem far_up (nonzero : n ≠ 0) (few : decimals ≤ 65205) (far : 65536 ≤ e) :
    Numeral.nearest ⟨negative, n, (e : Int) - decimals⟩ = .infinity negative := by
  have some := Digits.count_positive n
  apply Numeral.nearest_past _ nonzero
  change 310 < (Digits.count n : Int) + ((e : Int) - decimals)
  omega

end Far

theorem counted_nearest {whole decimals : Nat} (full : InFull power whole decimals) (negative : Bool) {n : Nat}
    (nonzero : n ≠ 0) (digits : Digits.count n ≤ whole + decimals) :
    Numeral.nearest ⟨negative, n, (power.map counted).getD 0 - decimals⟩ =
      Numeral.nearest ⟨negative, n, (power.map value).getD 0 - decimals⟩ := by
  cases power with
  | none => rfl
  | some p =>
    simp only [Option.map_some, Option.getD_some]
    by_cases small : p.size < 655360
    · rw [p.counted_small small]
    · have room := (full p rfl).resolve_left small
      have far : 65536 ≤ p.size := Nat.le_trans (by decide) (Nat.le_of_not_lt small)
      have counted_far : Numeral.exponentLimit ≤ _ := Digits.limit_le_fold_below 0 p.digits far
      unfold counted value signed
      split at room
      · rename_i down
        rw [if_pos down, if_pos down, far_down negative digits room far, far_down negative digits room counted_far]
      · rename_i up
        rw [if_neg up, if_neg up, far_up negative nonzero room far, far_up negative nonzero room counted_far]

end Power

structure Spelled where
  whole : List Char
  decimals : Option (List Char)
  power : Option Power
  whole_digits : ∀ c ∈ whole, c.isDigit = true
  decimals_digits : ∀ c ∈ decimals.getD [], c.isDigit = true
  some_digit : whole ++ decimals.getD [] ≠ []

theorem both_empty (whole decimals : List Char) :
    (whole.isEmpty && decimals.isEmpty) = true ↔ whole ++ decimals = [] := by
  rw [Bool.and_eq_true, List.isEmpty_iff, List.isEmpty_iff, List.append_eq_nil_iff]

namespace Spelled

variable (w : Spelled)

def digits : List Char := w.whole ++ w.decimals.getD []

def fractionText : List Char := (w.decimals.map ('.' :: ·)).getD []

def powerText : List Char := (w.power.map Power.toText).getD []

def toText : List Char := w.whole ++ (w.fractionText ++ w.powerText)

def scaled (e : Int) : ℚ := Digits.toNat w.digits * 10 ^ (e - (w.decimals.getD []).length)

def exponent : Int := (w.power.map Power.value).getD 0

def value : ℚ := w.scaled w.exponent

def counted : Int := (w.power.map Power.counted).getD 0

-- The digits of an exponent count from the first one on, until they make 65 536 or more.
def Counts (e : Int) : Prop :=
  match w.power with
  | none => e = 0
  | some p => ∃ k, Digits.Counts 0x10000 0 p.digits k ∧ e = p.signed (Digits.toNat (p.digits.take k))

def InFull : Prop := Digits.toNat w.digits = 0 ∨ Power.InFull w.power w.whole.length (w.decimals.getD []).length

def numeral (negative : Bool) (e : Int) : Numeral :=
  ⟨negative, Digits.toNat w.digits, e - (w.decimals.getD []).length⟩

theorem counts_iff (e : Int) : w.Counts e ↔ e = w.counted := by
  rw [Counts, counted]
  cases w.power with
  | none => exact Iff.rfl
  | some p =>
    have value {k : Nat} (counts : Digits.Counts Numeral.exponentLimit 0 p.digits k) :
        p.counted = p.signed (Digits.toNat (p.digits.take k)) := congrArg p.signed counts.value
    constructor
    · rintro ⟨k, counts, rfl⟩
      exact (value counts).symm
    · rintro rfl
      obtain ⟨k, counts⟩ := Digits.counts_some Numeral.exponentLimit 0 p.digits
      exact ⟨k, counts, value counts⟩

theorem power_stops : ∀ c ∈ w.powerText.head?, c.isDigit = false ∧ c ≠ '.' := Power.text_stops w.power

theorem fraction_stops : ∀ c ∈ (w.fractionText ++ w.powerText).head?, c.isDigit = false := by
  rw [fractionText]
  cases w.decimals with
  | none => exact fun c head => (w.power_stops c head).1
  | some ds =>
    intro c head
    obtain rfl := Option.some.inj head
    rfl

theorem take_fraction : Numeral.fraction (w.fractionText ++ w.powerText) = (w.decimals.getD [], w.powerText) := by
  have digits := w.decimals_digits
  rw [fractionText]
  cases shape : w.decimals with
  | none => exact Numeral.fraction_bare fun c head => (w.power_stops c head).2
  | some ds =>
    rw [shape] at digits
    exact Numeral.fraction_point digits fun c head => (w.power_stops c head).1

theorem numeral_read (negative : Bool) :
    Numeral.unsigned? negative w.toText = some (w.numeral negative w.counted) := by
  obtain ⟨front, back⟩ := Digits.take_digits w.whole _ w.whole_digits w.fraction_stops
  have read : Numeral.exponent? w.powerText = _ := Power.text_read w.power
  have filled := mt (both_empty w.whole (w.decimals.getD [])).mp w.some_digit
  simp only [Numeral.unsigned?, toText, front, back, w.take_fraction, filled, read, Option.map_some]
  rfl

theorem text_start : ∃ c rest, w.toText = c :: rest ∧ (c.isDigit = true ∨ c = '.') := by
  rw [toText]
  cases shape : w.whole with
  | cons d ds => exact ⟨d, _, rfl, .inl (w.whole_digits d (shape ▸ List.mem_cons_self))⟩
  | nil =>
    have some := w.some_digit
    rw [shape] at some
    rw [fractionText]
    cases fraction : w.decimals with
    | none =>
      rw [fraction] at some
      exact absurd rfl some
    | some ds => exact ⟨'.', _, rfl, .inr rfl⟩

theorem text_bare : ∀ c ∈ w.toText.head?, c ≠ '-' ∧ c ≠ '+' := by
  obtain ⟨d, rest, shape, start⟩ := w.text_start
  intro c head
  rw [shape] at head
  obtain rfl := Option.some.inj head
  rcases start with digit | rfl
  · exact Digits.digit_not_sign d digit
  · decide

theorem not_only_digits (more : w.decimals ≠ none ∨ w.power ≠ none) : Digits.allDigits w.toText = false := by
  have stops := w.fraction_stops
  have behind : w.fractionText ++ w.powerText ≠ [] := by
    rw [fractionText, powerText]
    rcases more with some | some
    · obtain ⟨ds, decimals⟩ := Option.ne_none_iff_exists'.mp some
      simp [decimals]
    · obtain ⟨p, power⟩ := Option.ne_none_iff_exists'.mp some
      simp [power, Power.toText]
  obtain ⟨c, rest, shape⟩ := List.exists_cons_of_ne_nil behind
  have other := stops c (by rw [shape]; rfl)
  simp [Digits.allDigits, toText, shape, other]

theorem digits_count : Digits.count (Digits.toNat w.digits) ≤ w.whole.length + (w.decimals.getD []).length := by
  have all := List.forall_mem_append.mpr ⟨w.whole_digits, w.decimals_digits⟩
  exact Nat.le_trans (Digits.count_to_nat w.digits w.some_digit all) (Nat.le_of_eq List.length_append)

theorem counted_nearest (negative : Bool) (full : w.InFull) :
    (w.numeral negative w.counted).nearest = (w.numeral negative w.exponent).nearest := by
  by_cases zero : Digits.toNat w.digits = 0
  · rw [Numeral.nearest_of_zero _ zero, Numeral.nearest_of_zero _ zero]
    rfl
  · exact Power.counted_nearest w.power (full.resolve_left zero) negative zero w.digits_count

theorem read (sign : Option Bool) :
    Binary64.read? (Power.signText sign ++ w.toText) = some (w.numeral (sign = some true) w.counted).nearest := by
  simp only [Binary64.read?, Power.split_signed sign w.text_bare, w.numeral_read, Option.map_some, Option.some_or]

end Spelled

end TablePeek
