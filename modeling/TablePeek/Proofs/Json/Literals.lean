import TablePeek.Number.Layout
import TablePeek.Proofs.Json.Text
import TablePeek.Proofs.Number.Spelled

set_option autoImplicit false

namespace TablePeek.Json

theorem exponent_digits_fit (n : Nat) (ds : List Char) (digits : ∀ c ∈ ds, c.isDigit = true)
    (fits : Digits.fold n ds < 0x80000000) : exponentDigits n ds = (some (Digits.fold n ds), []) := by
  induction ds generalizing n with
  | nil => rfl
  | cons c ds ih =>
    have step : Digits.fold n (c :: ds) = Digits.fold (10 * n + Digits.value c) ds := rfl
    have small := Nat.lt_of_le_of_lt (Digits.le_fold (10 * n + Digits.value c) ds) fits
    rw [exponentDigits, if_pos (digits c List.mem_cons_self), if_pos small, step]
    exact ih _ (fun d member => digits d (List.mem_cons_of_mem _ member)) fits

theorem exponent_digits_past (n : Nat) (ds : List Char) (digits : ∀ c ∈ ds, c.isDigit = true) (start : n < 0x80000000)
    (past : 0x80000000 ≤ Digits.fold n ds) :
    ∃ rest, exponentDigits n ds = (none, rest) := by
  induction ds generalizing n with
  | nil => exact absurd past (Nat.not_le_of_lt start)
  | cons c ds ih =>
    have later : ∀ d ∈ ds, d.isDigit = true := fun d member => digits d (List.mem_cons_of_mem _ member)
    rw [exponentDigits, if_pos (digits c List.mem_cons_self)]
    split
    · rename_i small
      exact ih _ later small past
    · exact ⟨ds, rfl⟩

structure Literal where
  negative : Bool
  whole : List Char
  decimals : List Char
  power : Option Power
  whole_tight : Digits.Tight whole
  decimals_digits : ∀ c ∈ decimals, c.isDigit = true

namespace Literal

variable (l : Literal)

def fractionText : List Char := if l.decimals = [] then [] else '.' :: l.decimals

def powerText : List Char := (l.power.map Power.toText).getD []

def tail : List Char := l.fractionText ++ l.powerText

def unsigned : List Char := l.whole ++ l.tail

def toText : List Char := Layout.sign l.negative ++ l.unsigned

def exponent : Int := (l.power.map Power.value).getD 0

def numeral : Numeral := ⟨l.negative, Digits.toNat (l.whole ++ l.decimals), l.exponent - l.decimals.length⟩

def counted : Int := (l.power.map Power.counted).getD 0

def InFull : Prop := l.numeral.coefficient = 0 ∨ Power.InFull l.power l.whole.length l.decimals.length

def countedNumeral : Numeral := { l.numeral with exponent := l.counted - l.decimals.length }

theorem whole_digits : ∀ c ∈ l.whole, c.isDigit = true := ((Digits.all_digits_iff _).mp l.whole_tight.digits).2

theorem whole_nonempty : l.whole ≠ [] := ((Digits.all_digits_iff _).mp l.whole_tight.digits).1

theorem all_digits : ∀ c ∈ l.whole ++ l.decimals, c.isDigit = true :=
  List.forall_mem_append.mpr ⟨l.whole_digits, l.decimals_digits⟩

def decimals? : Option (List Char) := if l.decimals = [] then none else some l.decimals

theorem decimals_all : l.decimals?.getD [] = l.decimals := by
  rw [decimals?]
  split
  · rename_i none
    exact none.symm
  · rfl

-- A literal without its sign is a numeral like any other.
def spelled : Spelled where
  whole := l.whole
  decimals := l.decimals?
  power := l.power
  whole_digits := l.whole_digits
  decimals_digits := l.decimals_all.symm ▸ l.decimals_digits
  some_digit := List.append_ne_nil_of_left_ne_nil l.whole_nonempty _

theorem spelled_decimals : l.spelled.decimals.getD [] = l.decimals := l.decimals_all

theorem tail_spelled : l.tail = l.spelled.fractionText ++ l.spelled.powerText := by
  apply congrArg (· ++ l.powerText)
  change l.fractionText = (l.decimals?.map ('.' :: ·)).getD []
  rw [fractionText, decimals?]
  split <;> rfl

theorem unsigned_spelled : l.unsigned = l.spelled.toText := congrArg (l.whole ++ ·) l.tail_spelled

theorem numeral_spelled (e : Int) : l.spelled.numeral l.negative e = { l.numeral with exponent := e - l.decimals.length } := by
  rw [Spelled.numeral, Spelled.digits, spelled_decimals]
  rfl

theorem tail_stops : ∀ c ∈ l.tail.head?, c.isDigit = false := by
  rw [tail_spelled]
  exact l.spelled.fraction_stops

theorem take_whole : l.unsigned.takeWhile Char.isDigit = l.whole ∧ l.unsigned.dropWhile Char.isDigit = l.tail :=
  Digits.take_digits l.whole l.tail l.whole_digits l.tail_stops

theorem unsigned_head : ∀ c ∈ l.unsigned.head?, c.isDigit = true := by
  obtain ⟨d, ds, written⟩ := List.exists_cons_of_ne_nil l.whole_nonempty
  have digit := l.whole_digits d (by rw [written]; exact List.mem_cons_self)
  rw [unsigned, written]
  intro c head
  exact Option.some.inj head ▸ digit

theorem split_sign : Digits.splitSign l.toText = (l.negative, l.unsigned) := by
  rw [toText]
  cases l.negative with
  | true => rfl
  | false => exact Digits.split_sign_unsigned l.unsigned_head

theorem numeral_read : Numeral.unsigned? l.negative l.unsigned = some l.countedNumeral := by
  rw [unsigned_spelled, Spelled.numeral_read, numeral_spelled]
  rfl

def IsWhole : Prop := l.decimals = [] ∧ l.power = none

def integer : Int := if l.negative then -(Digits.toNat l.whole : Int) else Digits.toNat l.whole

theorem whole_tail (whole : l.IsWhole) : l.tail = [] := by
  rw [tail, fractionText, if_pos whole.1, powerText, whole.2]
  rfl

theorem int64_whole (whole : l.IsWhole) : readInt64? l.toText =
    if -0x8000000000000000 ≤ l.integer ∧ l.integer < 0x8000000000000000 then some (Int64.ofInt l.integer) else none := by
  have same : l.unsigned = l.whole := by rw [unsigned, l.whole_tail whole, List.append_nil]
  simp only [readInt64?, l.split_sign, same, l.whole_tight.digits, if_true]
  rfl

theorem int64_other (other : ¬ l.IsWhole) : readInt64? l.toText = none := by
  have more : l.spelled.decimals ≠ none ∨ l.spelled.power ≠ none := by
    apply (not_and_or.mp other).imp_left
    intro some
    change l.decimals? ≠ none
    rw [decimals?, if_neg some]
    exact Option.some_ne_none _
  have mixed : Digits.allDigits l.unsigned = false := l.unsigned_spelled ▸ l.spelled.not_only_digits more
  simp only [readInt64?, l.split_sign, mixed, Bool.false_eq_true, if_false]

theorem digits_count : Digits.count l.numeral.coefficient ≤ l.whole.length + l.decimals.length := by
  have digits := l.spelled.digits_count
  rwa [Spelled.digits, spelled_decimals] at digits

theorem counted_nearest (full : l.InFull) : l.countedNumeral.nearest = l.numeral.nearest := by
  have spelled : l.spelled.InFull := by
    rw [Spelled.InFull, Spelled.digits, spelled_decimals]
    exact full
  have same := l.spelled.counted_nearest l.negative spelled
  rw [numeral_spelled, numeral_spelled] at same
  exact same

theorem binary64_read : Binary64.read? l.toText = some l.countedNumeral.nearest := by
  simp only [Binary64.read?, l.split_sign, l.numeral_read, Option.map_some, Option.some_or]

theorem guess_literal : Cell.guess (String.ofList l.toText) =
    match readInt64? l.toText with
    | some i => .integer i
    | none => .float l.countedNumeral.nearest := by
  have written := String.toList_ofList (l := l.toText)
  cases read : readInt64? l.toText with
  | some i => exact Cell.guess_of_int64 (by rw [written, read])
  | none => exact Cell.guess_of_binary64 (by rw [written, read]) (by rw [written, l.binary64_read])

section Reading

def gathered : Gathered := .ofDigits l.whole l.decimals

theorem number_leading : number l.negative l.unsigned = afterWhole l.negative l.whole l.tail := by
  rw [number, l.take_whole.1, l.take_whole.2]
  split
  · rename_i none
    exact absurd none l.whole_nonempty
  · rename_i second more leading
    have alone := l.whole_tight.leading (by rw [leading]; rfl)
    rw [leading] at alone
    cases alone
  · rfl

theorem number_whole (whole : l.IsWhole) : number l.negative l.unsigned = wholeNumber l.negative l.whole [] := by
  rw [l.number_leading, l.whole_tail whole]
  rfl

theorem number_other (other : ¬ l.IsWhole) :
    number l.negative l.unsigned = scaledNumber l.negative l.gathered l.powerText := by
  rw [l.number_leading]
  have decimals := Digits.take_digits l.decimals l.powerText l.decimals_digits fun c head =>
    (Power.text_stops l.power c head).1
  rw [tail, fractionText, gathered]
  split
  · rename_i bare
    obtain ⟨p, written⟩ := Option.ne_none_iff_exists'.mp fun missing => other ⟨bare, missing⟩
    rw [bare, List.nil_append, powerText, written]
    simp only [Option.map_some, Option.getD_some, Power.toText]
    cases p.capital <;> rfl
  · rename_i some
    rw [List.cons_append, afterWhole]
    simp only [decimals.1, decimals.2, List.isEmpty_iff, some, if_false]

theorem gathered_float_found {negative : Bool} {g : Gathered} {e : Int} {x : Binary64}
    (found : g.toBinary64? negative e = some x) (cs : List Char) : gatheredFloat negative g e cs = .ok (.float x, cs) := by
  unfold gatheredFloat
  rw [found]

theorem gathered_float_read {negative : Bool} {g : Gathered} {e : Int} {cs rest : List Char} {v : Value}
    (read : gatheredFloat negative g e cs = .ok (v, rest)) : ∃ x, g.toBinary64? negative e = some x ∧ v = .float x := by
  unfold gatheredFloat at read
  cases found : g.toBinary64? negative e with
  | none =>
    rw [found] at read
    cases read
  | some x =>
    rw [found] at read
    cases read
    exact ⟨x, rfl, rfl⟩

section Exponents

variable {negative : Bool} {g : Gathered} (p : Power)

theorem with_exponent_opened : withExponent negative g (Power.signText p.sign ++ p.digits) =
    match exponentDigits 0 p.digits with
    | (some n, rest) => gatheredFloat negative g (p.signed n) rest
    | (none, rest) =>
      if g.significand ≠ 0 ∧ !p.down then .error (.before .numberOutOfRange rest)
      else .ok (.float (.zero negative), rest.dropWhile Char.isDigit) := by
  obtain ⟨nonempty, digits⟩ := (Digits.all_digits_iff _).mp p.all_digits
  obtain ⟨c, ds, written⟩ := List.exists_cons_of_ne_nil nonempty
  have digit := digits c (by rw [written]; exact List.mem_cons_self)
  simp only [withExponent, p.split_sign]
  simp only [written, digit, if_true]
  rfl

theorem with_exponent_fit (fits : p.size < 0x80000000) :
    withExponent negative g (Power.signText p.sign ++ p.digits) = gatheredFloat negative g p.value [] := by
  rw [with_exponent_opened, exponent_digits_fit 0 p.digits ((Digits.all_digits_iff _).mp p.all_digits).2 fits]
  rfl

-- With an exponent past 31 bits nothing is scaled: the number is a zero, unless it is refused.
theorem with_exponent_read {rest : List Char} {v : Value}
    (read : withExponent negative g (Power.signText p.sign ++ p.digits) = .ok (v, rest)) :
    (p.size < 0x80000000 ∧ ∃ x, g.toBinary64? negative p.value = some x ∧ v = .float x) ∨
      (0x80000000 ≤ p.size ∧ v = .float (.zero negative) ∧ (g.significand = 0 ∨ p.down = true)) := by
  by_cases fits : p.size < 0x80000000
  · rw [with_exponent_fit p fits] at read
    exact .inl ⟨fits, gathered_float_read read⟩
  · obtain ⟨behind, past⟩ := exponent_digits_past 0 p.digits ((Digits.all_digits_iff _).mp p.all_digits).2 (by decide)
      (Nat.le_of_not_lt fits)
    rw [with_exponent_opened, past] at read
    simp only at read
    split at read
    · cases read
    · rename_i allowed
      cases read
      refine .inr ⟨Nat.le_of_not_lt fits, rfl, ?_⟩
      grind

end Exponents

theorem scaled_number_power {p : Power} (written : l.power = some p) : scaledNumber l.negative l.gathered l.powerText =
    withExponent l.negative l.gathered (Power.signText p.sign ++ p.digits) := by
  rw [powerText, written]
  simp only [Option.map_some, Option.getD_some, Power.toText]
  cases p.capital <;> rfl

theorem read_value_literal (deeper : Option Reader) : readValue deeper l.toText = number l.negative l.unsigned := by
  obtain ⟨d, ds, shape⟩ := List.exists_cons_of_ne_nil l.whole_nonempty
  have digit := l.whole_digits d (by rw [shape]; exact List.mem_cons_self)
  rw [toText]
  cases l.negative with
  | true => rfl
  | false =>
    rw [unsigned, shape]
    exact read_value_digit deeper d (ds ++ l.tail) digit

theorem read_deep : (Reader.ofDepth maxDepth).read l.toText = number l.negative l.unsigned :=
  l.read_value_literal (some (.ofDepth 126))

theorem accepted_of_read {v : Value} (read : number l.negative l.unsigned = .ok (v, [])) :
    Json.read l.toText = .ok v := by
  rw [Json.read, l.read_deep, read]
  rfl

theorem read_accepted {v : Value} (accepted : Json.read l.toText = .ok v) :
    ∃ rest, number l.negative l.unsigned = .ok (v, rest) := by
  rw [Json.read, l.read_deep] at accepted
  split at accepted
  · cases accepted
  · rename_i w rest read
    split at accepted
    · cases accepted
      exact ⟨rest, read⟩
    · cases accepted

/-- What an accepted literal is read as: a whole number of 64 bits; or the float that its gathered digits are scaled
to; or a zero, where the exponent is past 31 bits. -/
theorem read_literal {v : Value} (accepted : Json.read l.toText = .ok v) :
    (l.IsWhole ∧ ∃ i, whole? l.negative (Digits.toNat l.whole) = some i ∧ v = .integer i) ∨
      (l.exponent.natAbs < 0x80000000 ∧ (l.IsWhole → whole? l.negative (Digits.toNat l.whole) = none) ∧
        ∃ x, l.gathered.toBinary64? l.negative l.exponent = some x ∧ v = .float x) ∨
      (0x80000000 ≤ l.exponent.natAbs ∧ v = .float (.zero l.negative) ∧
        (l.gathered.significand = 0 ∨ l.exponent < 0)) := by
  obtain ⟨rest, read⟩ := l.read_accepted accepted
  by_cases whole : l.IsWhole
  · rw [l.number_whole whole, wholeNumber] at read
    have bare : l.exponent = 0 := by rw [exponent, whole.2]; rfl
    cases held : whole? l.negative (Digits.toNat l.whole) with
    | some i =>
      rw [held] at read
      cases read
      exact .inl ⟨whole, i, rfl, rfl⟩
    | none =>
      rw [held] at read
      have read := gathered_float_read read
      rw [bare, gathered, whole.1]
      exact .inr (.inl ⟨by decide, fun _ => rfl, read⟩)
  · rw [l.number_other whole] at read
    cases written : l.power with
    | none =>
      have bare : l.exponent = 0 := by rw [exponent, written]; rfl
      rw [powerText, written] at read
      rw [bare]
      exact .inr (.inl ⟨by decide, fun all => absurd all whole, gathered_float_read read⟩)
    | some p =>
      have value : l.exponent = p.value := by rw [exponent, written]; rfl
      have size : p.value.natAbs = p.size := by
        rw [Power.value, Power.signed]
        split <;> omega
      rw [l.scaled_number_power written] at read
      rw [value, size]
      rcases with_exponent_read p read with ⟨fits, scaled⟩ | ⟨past, zero, allowed⟩
      · exact .inr (.inl ⟨fits, fun all => absurd all whole, scaled⟩)
      · refine .inr (.inr ⟨past, zero, allowed.imp id fun down => ?_⟩)
        rw [Power.value, Power.signed, if_pos down]
        omega

end Reading

end Literal

end TablePeek.Json
