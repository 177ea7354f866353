import TablePeek.Proofs.Json.Grammar
import TablePeek.Proofs.Number.Exact

set_option autoImplicit false

namespace TablePeek

namespace Binary64

def rational? : Binary64 → Option ℚ
  | .finite negative m => some (if negative then -m.value else m.value)
  | _ => none

theorem zero_rational (negative : Bool) : (zero negative).rational? = some 0 := by
  have none : Magnitude.zero.value = 0 := by
    rw [Magnitude.value, Magnitude.steps, Magnitude.zero, Nat.zero_mul, Nat.cast_zero, zero_div]
  rw [zero, rational?, none]
  cases negative <;> simp

end Binary64

namespace Cell

def rational? : Cell → Option ℚ
  | .integer i => some i.toInt
  | .float x => x.rational?
  | _ => none

def SameNumber (a b : Cell) : Prop :=
  (∃ q, a.rational? = some q ∧ b.rational? = some q) ∨ ∃ n, a = .float (.infinity n) ∧ b = .float (.infinity n)

def PlacesApart (n : Nat) (a b : Cell) : Prop :=
  ∃ x y negative p q, a = .float x ∧ b = .float y ∧ x.place? = some (negative, p) ∧ y.place? = some (negative, q) ∧
    Apart n p q

theorem same_integer (i : Int64) : SameNumber (.integer i) (.integer i) := .inl ⟨i.toInt, rfl, rfl⟩

theorem same_float {x : Binary64} {p : Bool × Nat} (number : x.place? = some p) : SameNumber (.float x) (.float x) := by
  cases x with
  | nan => cases number
  | infinity n => exact .inr ⟨n, rfl, rfl⟩
  | finite n m => exact .inl ⟨_, rfl, rfl⟩

theorem same_zero (i : Int64) (zero : i.toInt = 0) (negative : Bool) :
    SameNumber (.integer i) (.float (.zero negative)) := by
  refine .inl ⟨0, ?_, Binary64.zero_rational negative⟩
  rw [rational?, zero, Int.cast_zero]

end Cell

namespace Json.Literal

structure ReadAlike (l : Literal) (csv json : Cell) : Prop where
  whole : l.IsWhole → -0x8000000000000000 ≤ l.integer → l.integer < 0x10000000000000000 → csv.SameNumber json
  zero : l.numeral.coefficient = 0 → csv.SameNumber json
  short : l.InFull → l.numeral.coefficient ≤ 2 ^ 53 → l.numeral.exponent.natAbs ≤ 22 → csv.SameNumber json
  close : l.InFull → l.exponent.natAbs < 0x80000000 → csv.SameNumber json ∨ csv.PlacesApart 2 json
  past : 0x80000000 ≤ l.exponent.natAbs → json = .float (.zero l.negative) ∧ (l.InFull → csv.SameNumber json)
  cut : ¬ l.InFull → csv = .float l.countedNumeral.nearest

variable (l : Literal)

theorem read_alike_of_same {csv json : Cell} (same : csv.SameNumber json) (full : l.InFull)
    (few : l.exponent.natAbs < 0x80000000) : l.ReadAlike csv json :=
  ⟨fun _ _ _ => same, fun _ => same, fun _ _ _ => same, fun _ _ => .inl same,
    fun past => absurd few (Nat.not_lt_of_le past), fun cut => absurd full cut⟩

theorem gathers : ∃ raised, Gathered.Gathers l.gathered l.numeral.coefficient l.decimals.length raised :=
  Gathered.of_digits_gathers l.whole l.decimals l.all_digits

theorem nearest_of_zero (zero : l.numeral.coefficient = 0) : l.countedNumeral.nearest = .zero l.negative :=
  Numeral.nearest_of_zero l.countedNumeral zero

theorem whole_exponent (whole : l.IsWhole) : l.exponent = 0 := by
  rw [exponent, whole.2]
  rfl

theorem whole_in_full (whole : l.IsWhole) : l.InFull := by
  refine .inr fun p some => ?_
  rw [whole.2] at some
  cases some

theorem whole_coefficient (whole : l.IsWhole) : l.numeral.coefficient = Digits.toNat l.whole := by
  rw [numeral, whole.1, List.append_nil]

theorem whole_held {i : Int} (held : whole? l.negative (Digits.toNat l.whole) = some i) :
    i = l.integer ∧ i < 0x10000000000000000 ∧ -0x8000000000000000 ≤ i := by
  rw [whole?] at held
  rw [integer]
  cases sign : l.negative with
  | true =>
    rw [sign, if_pos rfl, Option.ite_none_right_eq_some, Option.some.injEq] at held
    simp only [if_true]
    omega
  | false =>
    rw [sign, if_neg (by decide), Option.ite_none_right_eq_some, Option.some.injEq] at held
    simp only [Bool.false_eq_true, if_false]
    omega

theorem whole_not_held (held : whole? l.negative (Digits.toNat l.whole) = none)
    (low : -0x8000000000000000 ≤ l.integer) (high : l.integer < 0x10000000000000000) : Digits.toNat l.whole = 0 := by
  rw [whole?] at held
  rw [integer] at low high
  cases sign : l.negative with
  | true =>
    rw [sign, if_pos rfl, ite_eq_right_iff] at held
    rw [sign] at low
    simp only [if_true, reduceCtorEq, imp_false] at held low
    omega
  | false =>
    rw [sign, if_neg (by decide), ite_eq_right_iff] at held
    rw [sign] at high
    simp only [Bool.false_eq_true, if_false, reduceCtorEq, imp_false] at held high
    omega

theorem guess_float (none : readInt64? l.toText = none) :
    Cell.guess (String.ofList l.toText) = .float l.countedNumeral.nearest := by
  rw [l.guess_literal, none]

theorem guess_integer {i : Int64} (read : readInt64? l.toText = some i) :
    Cell.guess (String.ofList l.toText) = .integer i ∧ l.IsWhole ∧ i.toInt = l.integer := by
  have whole : l.IsWhole := by
    by_contra other
    rw [l.int64_other other] at read
    cases read
  have value := read_int64_value read
  rw [l.split_sign] at value
  have same : l.unsigned = l.whole := by rw [unsigned, l.whole_tail whole, List.append_nil]
  simp only [same] at value
  rw [l.guess_literal, read]
  exact ⟨rfl, whole, value⟩

theorem guess_zero (zero : l.numeral.coefficient = 0) :
    (Cell.guess (String.ofList l.toText)).SameNumber (.float (.zero l.negative)) := by
  cases read : readInt64? l.toText with
  | some i =>
    obtain ⟨guessed, whole, value⟩ := l.guess_integer read
    rw [l.whole_coefficient whole] at zero
    rw [guessed]
    refine Cell.same_zero i ?_ l.negative
    rw [value, integer, zero]
    cases l.negative <;> rfl
  | none =>
    rw [l.guess_float read, l.nearest_of_zero zero]
    exact Cell.same_float rfl

theorem nearest_whole (whole : l.IsWhole) (plus : l.negative = false) :
    l.countedNumeral.nearest = .ofRatio false (Digits.toNat l.whole) 1 := by
  have num : l.numeral.num = Digits.toNat l.whole := by
    rw [Numeral.num, l.whole_coefficient whole, numeral, l.whole_exponent whole, whole.1]
    exact Nat.mul_one _
  have den : l.numeral.den = 1 := by
    rw [Numeral.den, numeral, l.whole_exponent whole, whole.1]
    rfl
  rw [l.counted_nearest (l.whole_in_full whole), Numeral.nearest_ratio, num, den, numeral, plus]

theorem integers_alike (whole : l.IsWhole) {i : Int} (held : whole? l.negative (Digits.toNat l.whole) = some i) :
    l.ReadAlike (Cell.guess (String.ofList l.toText)) (Cell.ofJson (.integer i)) := by
  refine l.read_alike_of_same ?_ (l.whole_in_full whole) (by rw [l.whole_exponent whole]; decide)
  obtain ⟨value, high, low⟩ := l.whole_held held
  rw [value] at high low ⊢
  by_cases inside : l.integer < 0x8000000000000000
  · have read := l.int64_whole whole
    rw [if_pos ⟨low, inside⟩] at read
    rw [(l.guess_integer read).1, Cell.ofJson, if_pos ⟨low, inside⟩]
    exact Cell.same_integer _
  · have read := l.int64_whole whole
    rw [if_neg (fun range => inside range.2)] at read
    have plus : l.negative = false := by
      rw [integer] at inside
      cases sign : l.negative with
      | false => rfl
      | true =>
        rw [sign, if_pos rfl] at inside
        omega
    have natural : l.integer = Digits.toNat l.whole := by rw [integer, plus]; rfl
    rw [l.guess_float read, l.nearest_whole whole plus, Cell.ofJson, if_neg (fun range => inside range.2), Binary64.ofInt,
      natural, decide_eq_false (by omega), Int.natAbs_natCast]
    exact Cell.same_float (Binary64.of_ratio_place _ _ _)

theorem scaled_alike (few : l.exponent.natAbs < 0x80000000)
    (held : l.IsWhole → whole? l.negative (Digits.toNat l.whole) = none) {x : Binary64}
    (scaled : l.gathered.toBinary64? l.negative l.exponent = some x) :
    l.ReadAlike (Cell.guess (String.ofList l.toText)) (.float x) := by
  obtain ⟨raised, known⟩ := l.gathers
  by_cases zero : l.numeral.coefficient = 0
  · rw [zero] at known
    rw [known.read_zero l.exponent scaled]
    exact l.read_alike_of_same (l.guess_zero zero) (.inl zero) few
  · -- The only whole number of 64 bits that is scaled is a zero with a minus.
    have unheld : l.IsWhole → -0x8000000000000000 ≤ l.integer → l.integer < 0x10000000000000000 → False :=
      fun whole low high => zero ((l.whole_coefficient whole).trans (l.whole_not_held (held whole) low high))
    have guessed : Cell.guess (String.ofList l.toText) = .float l.countedNumeral.nearest := by
      apply l.guess_float
      cases read : readInt64? l.toText with
      | none => rfl
      | some i =>
        obtain ⟨_, whole, value⟩ := l.guess_integer read
        have low := Int64.le_toInt i
        have high := Int64.toInt_lt i
        rw [value] at low high
        exact (unheld whole low (Int.lt_trans high (by decide))).elim
    rw [guessed]
    refine ⟨fun whole low high => (unheld whole low high).elim, fun none => absurd none zero, ?_, ?_,
      fun past => absurd few (Nat.not_lt_of_le past), fun _ => rfl⟩
    · intro full short near
      rw [known.read_exact short l.exponent near scaled, l.counted_nearest full]
      exact Cell.same_float (Numeral.nearest_place _)
    · intro full _
      rw [l.counted_nearest full]
      obtain ⟨r, rfl, apart⟩ := known.read_apart zero l.exponent scaled
      exact .inr ⟨_, _, _, _, _, rfl, rfl, l.numeral.nearest_place, rfl, apart.symm.cut (Nat.le_of_lt r.place_lt_last)⟩

theorem few_whole_digits (full : Power.InFull l.power l.whole.length l.decimals.length)
    (past : 0x80000000 ≤ l.exponent.natAbs) (down : l.exponent < 0) : l.whole.length ≤ 65205 := by
  cases written : l.power with
  | none =>
    rw [exponent, written] at past
    exact absurd past (by decide)
  | some p =>
    have value : l.exponent = p.signed p.size := by rw [exponent, written]; rfl
    rw [value, Power.signed] at past down
    split at down
    · rename_i lowering
      rw [if_pos lowering] at past
      have bound := (full p written).resolve_left (by omega)
      rwa [if_pos lowering] at bound
    · omega

theorem zeros_alike (past : 0x80000000 ≤ l.exponent.natAbs)
    (allowed : l.gathered.significand = 0 ∨ l.exponent < 0) :
    l.ReadAlike (Cell.guess (String.ofList l.toText)) (.float (.zero l.negative)) := by
  obtain ⟨raised, known⟩ := l.gathers
  have other : ¬ l.IsWhole := by
    intro whole
    rw [l.whole_exponent whole] at past
    exact absurd past (by decide)
  have guessed := l.guess_float (l.int64_other other)
  have zero : l.gathered.significand = 0 → l.numeral.coefficient = 0 := by
    intro none
    by_contra some
    exact known.nonzero some none
  refine ⟨fun whole => absurd whole other, l.guess_zero, ?_, fun _ few => absurd few (Nat.not_lt_of_le past), ?_, fun _ => guessed⟩
  · intro _ _ near
    rcases allowed with none | down
    · exact l.guess_zero (zero none)
    · have place : l.numeral.exponent = l.exponent - l.decimals.length := rfl
      omega
  · refine fun _ => ⟨rfl, fun full => ?_⟩
    rcases allowed with none | down
    · exact l.guess_zero (zero none)
    · rcases full with none | full
      · exact l.guess_zero none
      · have few := l.few_whole_digits full past down
        have digits := l.digits_count
        have before : l.numeral.point < -330 := by
          rw [Numeral.point, show l.numeral.exponent = l.exponent - l.decimals.length from rfl]
          omega
        rw [guessed, l.counted_nearest (.inr full), l.numeral.nearest_before before]
        exact Cell.same_float rfl

theorem accepted_alike {v : Value} (accepted : Json.read l.toText = .ok v) :
    l.ReadAlike (.guess (String.ofList l.toText)) (.ofJson v) := by
  rcases l.read_literal accepted with ⟨whole, i, held, rfl⟩ | ⟨few, held, x, scaled, rfl⟩ | ⟨past, rfl, allowed⟩
  · exact l.integers_alike whole held
  · exact l.scaled_alike few held scaled
  · exact l.zeros_alike past allowed

/-- What the two readers make of a text that the JSON reader takes for a number and that has no blanks around it. It is
a literal. They agree on whole numbers of 64 bits, on zeros, and where digits of at most 53 bits meet an exact power of
ten; on all others they are two places apart at most. With an exponent past 31 bits the JSON reader holds a zero, and so
does the other. Only where the guess counts the first digits of an exponent, and so many digits stand on the side it works
against that the others would matter, is what it holds the nearest number to the digits with that much of the exponent. -/
theorem numbers_read_alike (s : String) {v : Value} (accepted : Json.read s.toList = .ok v) (number : v.IsNumber)
    (trimmed : Trimmed s.toList) : (∃ l : Literal, s.toList = l.toText) ∧
      ∀ l : Literal, s.toList = l.toText → l.ReadAlike (.guess s) (.ofJson v) := by
  refine ⟨literal_of_accepted accepted number trimmed, fun l written => ?_⟩
  rw [written] at accepted
  rw [← String.ofList_toList (s := s), written]
  exact l.accepted_alike accepted

def long : Literal where
  negative := false
  whole := "9581100632034409210599".toList
  decimals := []
  power := some ⟨false, none, "155".toList, by decide⟩
  whole_tight := ⟨by decide, by decide⟩
  decimals_digits := fun _ none => absurd none List.not_mem_nil

theorem long_literal_read : "9581100632034409210599e155".toList = long.toText ∧
    ∃ v, Json.read "9581100632034409210599e155".toList = .ok v ∧
      long.ReadAlike (.guess "9581100632034409210599e155") (.ofJson v) := by
  have written : "9581100632034409210599e155".toList = long.toText := by decide
  obtain ⟨v, accepted, number⟩ : ∃ v, Json.read "9581100632034409210599e155".toList = .ok v ∧ v.IsNumber :=
    accepted_of_number (by decide +kernel)
  have alike := (numbers_read_alike "9581100632034409210599e155" accepted number (by decide)).2
  exact ⟨written, v, accepted, alike long written⟩

def longNearest : Magnitude := ⟨8518590103820596, 1609, by decide, .inr (by decide), by decide⟩

def longScaled : Magnitude := ⟨8518590103820594, 1609, by decide, .inr (by decide), by decide⟩

-- A one with zeros behind it and an exponent that lowers it, of which the guess counts five digits.
def lowered (zeros : Nat) : Literal where
  negative := false
  whole := '1' :: List.replicate zeros '0'
  decimals := []
  power := some (.leastCut (some true))
  whole_tight := ⟨(Digits.all_digits_iff _).mpr ⟨List.cons_ne_nil _ _, List.forall_mem_cons.mpr ⟨rfl, Digits.zeros_digits zeros⟩⟩,
    fun zero => absurd (Option.some.inj zero) (by decide)⟩
  decimals_digits := fun _ none => absurd none List.not_mem_nil

theorem lowered_other (zeros : Nat) : ¬ (lowered zeros).IsWhole := fun whole => absurd whole.2 (Option.some_ne_none _)

theorem lowered_whole (zeros : Nat) : (lowered zeros).whole = '1' :: List.replicate zeros '0' := rfl

theorem lowered_value (zeros : Nat) : (lowered zeros).countedNumeral = ⟨false, 10 ^ zeros, -(65536 : Nat)⟩ := by
  have digits : Digits.toNat ((lowered zeros).whole ++ []) = 10 ^ zeros := by
    rw [List.append_nil, lowered_whole, ← List.singleton_append, Digits.to_nat_zeros_behind]
    exact Nat.one_mul _
  exact congrArg (Numeral.mk false · (-65536)) digits

theorem lowered_guess {zeros : Nat} (cut : zeros = 65536) :
    Cell.guess (String.ofList (lowered zeros).toText) = .float (.ofRatio false 1 1) := by
  rw [guess_float _ (int64_other _ (lowered_other _)), lowered_value, ← cut, Numeral.nearest_one]

theorem push_zeros (g : Gathered) (full : g.full = true) (k : Nat) :
    (List.replicate k '0').foldl Gathered.pushWhole g = ⟨g.significand, g.exponent + k, true⟩ := by
  induction k generalizing g with
  | zero => rw [← full]; simp
  | succ k ih =>
    have step : g.pushWhole '0' = ⟨g.significand, g.exponent + 1, true⟩ := by
      rw [Gathered.pushWhole, full]
      rfl
    rw [List.replicate_succ, List.foldl_cons, step, ih _ rfl, Nat.cast_succ]
    simp only [Int.add_assoc, Int.add_comm 1]

theorem lowered_gathered (k : Nat) : (lowered (20 + k)).gathered = ⟨10000000000000000000, 1 + k, false⟩ := by
  have first : ('1' :: List.replicate 20 '0').foldl Gathered.pushWhole .empty = ⟨10000000000000000000, 1, true⟩ := by
    decide
  rw [gathered, Gathered.ofDigits, lowered_whole, ← List.replicate_append_replicate, ← List.cons_append, List.foldl_append,
    first, push_zeros _ rfl]
  rfl

def tenToNineteen : Magnitude := ⟨4882812500000000, 1085, by decide, .inr (by decide), by decide⟩

def dividedOnce : Magnitude := ⟨8777798510069902, 61, by decide, .inr (by decide), by decide⟩

theorem divided_away : Binary64.overTenTo tenToNineteen 589843 = some .zero := by
  have once : Binary64.overPower tenToNineteen 308 = some dividedOnce := by decide +kernel
  have twice : Binary64.overPower dividedOnce 308 = some .zero := by decide +kernel
  rw [Binary64.overTenTo, if_neg (by decide), if_neg (by decide), once, Option.bind_some, Binary64.overTenTo,
    if_neg (by decide), if_neg (by decide), twice, Option.bind_some, Binary64.overTenTo, if_neg (by decide), if_pos (by decide)]

theorem lowered_scaled : Gathered.toBinary64? ⟨10000000000000000000, 65517, false⟩ false (-655360) = some (.zero false) := by
  have rounded : Magnitude.nearest? (stepsInOne * 10000000000000000000) 1 = some tenToNineteen := by decide +kernel
  have divided : Binary64.scaled? tenToNineteen (65517 + -655360) = some .zero := by
    rw [Binary64.scaled?, if_pos (by decide)]
    exact divided_away
  rw [Gathered.toBinary64?, rounded, Option.bind_some, divided]
  rfl

theorem lowered_read : Json.read (lowered 65536).toText = .ok (.float (.zero false)) := by
  have fits : (Power.leastCut (some true)).size < 0x80000000 := by decide
  have value : (Power.leastCut (some true)).value = -655360 := by decide
  have gathered : (lowered 65536).gathered = ⟨10000000000000000000, 65517, false⟩ := lowered_gathered 65516
  have sign : (lowered 65536).negative = false := rfl
  have power : (lowered 65536).power = some (.leastCut (some true)) := rfl
  apply accepted_of_read _
  rw [number_other _ (lowered_other _), scaled_number_power _ power, with_exponent_fit _ fits, gathered, value, sign]
  exact gathered_float_found lowered_scaled []

theorem finite_unlike (n : Nat) (negative : Bool) {m m' : Magnitude} (steps : m.steps ≠ m'.steps)
    (far : ¬ Apart n m.place m'.place) :
    ¬ Cell.SameNumber (.float (.finite negative m)) (.float (.finite negative m')) ∧
      ¬ Cell.PlacesApart n (.float (.finite negative m)) (.float (.finite negative m')) := by
  constructor
  · rintro (⟨q, first, second⟩ | ⟨_, first, _⟩)
    · have values := (Option.some.inj first).trans (Option.some.inj second).symm
      refine steps (Magnitude.steps_of_value ?_)
      cases negative with
      | false => exact values
      | true => exact neg_injective values
    · cases first
  · rintro ⟨x, y, _, p, q, same, same', first, second, apart⟩
    cases same
    cases same'
    cases first
    cases second
    exact far apart

theorem literals_read_apart : (∃ v, Json.read "9581100632034409210599e155".toList = .ok v ∧
      ¬ (Cell.guess "9581100632034409210599e155").SameNumber (.ofJson v) ∧
      ¬ (Cell.guess "9581100632034409210599e155").PlacesApart 1 (.ofJson v)) ∧
    ∃ v, Json.read (lowered 65536).toText = .ok v ∧
      ¬ (Cell.guess (String.ofList (lowered 65536).toText)).SameNumber (.ofJson v) ∧
      ¬ (Cell.guess (String.ofList (lowered 65536).toText)).PlacesApart 2 (.ofJson v) := by
  constructor
  · have guessed : Cell.guess "9581100632034409210599e155" = .float (.finite false longNearest) := by decide +kernel
    have held : (Json.read "9581100632034409210599e155".toList).toOption.map Cell.ofJson =
        some (.float (.finite false longScaled)) := by decide +kernel
    obtain ⟨v, accepted, _⟩ : ∃ v, Json.read "9581100632034409210599e155".toList = .ok v ∧ v.IsNumber :=
      accepted_of_number (by decide +kernel)
    rw [accepted] at held
    refine ⟨v, accepted, ?_⟩
    rw [guessed, Option.some.inj held]
    exact finite_unlike 1 false (by decide +kernel) (by decide +kernel)
  · have one : Binary64.ofRatio false 1 1 = .finite false (Binary64.ofFields 1023 0) := by decide +kernel
    refine ⟨_, lowered_read, ?_⟩
    rw [lowered_guess rfl, one]
    exact finite_unlike 2 false (by decide +kernel) (by decide +kernel)

end Json.Literal

end TablePeek
