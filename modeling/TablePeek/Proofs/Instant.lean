import TablePeek.Proofs.Calendar
import TablePeek.Proofs.Number.Shown
import TablePeek.Proofs.Text.Utf8

/-!
The texts of instants: what they denote, and that of two instants the later one has the later text. Most parts of
these texts have a fixed length, so the first part that differs decides.
-/

set_option autoImplicit false

namespace TablePeek

namespace Digits

structure Padded (width n : Nat) (ds : List Char) : Prop where
  length : ds.length = width
  digits : ∀ c ∈ ds, c.isDigit = true
  value : toNat ds = n

theorem padded_number (width n : Nat) (below : n < 10 ^ (width + 1)) :
    Padded (width + 1) n (padded (width + 1) n) where
  length := by
    have short := of_nat_length n width below
    rw [padded, List.length_append, List.length_replicate]
    omega
  digits := List.forall_mem_append.mpr ⟨zeros_digits _, of_nat_digits n⟩
  value := (to_nat_zeros_front _ _).trans (of_nat_value n)

theorem digit_lt_iff {c d : Char} (digit : c.isDigit = true) (other : d.isDigit = true) : c < d ↔ value c < value d := by
  have range := digit_range c digit
  have otherRange := digit_range d other
  change c.toNat < d.toNat ↔ _
  unfold value
  omega

theorem digit_eq_iff {c d : Char} (digit : c.isDigit = true) (other : d.isDigit = true) : c = d ↔ value c = value d := by
  have range := digit_range c digit
  have otherRange := digit_range d other
  rw [← Char.toNat_inj]
  unfold value
  omega

-- Digits that are read behind others can only decide where the others are the same.
theorem fold_lt_iff {s t : List Char} (digits : ∀ c ∈ s, c.isDigit = true) (others : ∀ c ∈ t, c.isDigit = true)
    (length : s.length = t.length) (a b : Nat) : fold a s < fold b t ↔ a < b ∨ a = b ∧ s < t := by
  induction s generalizing t a b with
  | nil =>
    obtain rfl : t = [] := List.length_eq_zero_iff.mp length.symm
    simp [fold]
  | cons c s ih =>
    cases t with
    | nil => cases length
    | cons d t =>
      obtain ⟨first, rest⟩ := List.forall_mem_cons.mp digits
      obtain ⟨otherFirst, otherRest⟩ := List.forall_mem_cons.mp others
      have small := digit_value_lt c first
      have otherSmall := digit_value_lt d otherFirst
      have further := ih rest otherRest (Nat.succ.inj length) (10 * a + value c) (10 * b + value d)
      rw [List.cons_lt_cons_iff, digit_lt_iff first otherFirst, digit_eq_iff first otherFirst]
      refine further.trans ?_
      by_cases behind : s < t <;> simp only [behind, and_true, and_false, or_false] <;> omega

section Order

variable {width m n : Nat} {s t u v : List Char}

theorem append_before (length : s.length = t.length) (less : s < t) (u v : List Char) : s ++ u < t ++ v := by
  induction s generalizing t with
  | nil =>
    obtain rfl : t = [] := List.length_eq_zero_iff.mp length.symm
    cases less
  | cons c s ih =>
    cases t with
    | nil => cases length
    | cons d t =>
      rcases List.cons_lt_cons_iff.mp less with first | ⟨rfl, rest⟩
      · exact List.cons_lt_cons_iff.mpr (.inl first)
      · exact List.cons_lt_cons_iff.mpr (.inr ⟨rfl, ih (Nat.succ.inj length) rest⟩)

theorem cons_before (c : Char) (less : u < v) : c :: u < c :: v := List.cons_lt_cons_iff.mpr (.inr ⟨rfl, less⟩)

theorem padded_lt_iff (first : Padded width m s) (second : Padded width n t) : m < n ↔ s < t := by
  have length : s.length = t.length := first.length.trans second.length.symm
  rw [← first.value, ← second.value]
  exact (fold_lt_iff first.digits second.digits length 0 0).trans (by simp)

theorem padded_unique (first : Padded width n s) (second : Padded width n t) : s = t :=
  List.le_antisymm (fun later => Nat.lt_irrefl n ((padded_lt_iff second first).mpr later))
    fun earlier => Nat.lt_irrefl n ((padded_lt_iff first second).mpr earlier)

theorem padded_before (first : Padded width m s) (second : Padded width n t) (less : m < n ∨ m = n ∧ u < v) :
    s ++ u < t ++ v := by
  rcases less with less | ⟨rfl, behind⟩
  · exact append_before (first.length.trans second.length.symm) ((padded_lt_iff first second).mp less) u v
  · rw [padded_unique first second]
    exact List.append_left_lt behind

end Order

end Digits

namespace Instant

structure Clock where
  hour : Fin 24
  minute : Fin 60
  second : Fin 60
  milli : Fin 1000
deriving DecidableEq, Repr

def Clock.millis (c : Clock) : Nat := ((c.hour * 60 + c.minute) * 60 + c.second) * 1000 + c.milli

inductive DateText (d : Date) : List Char → Prop where
  | written {y : Nat} {year month day : List Char} (years : Digits.Padded 4 y year) (same : d.year = y)
      (months : Digits.Padded 2 d.month month) (days : Digits.Padded 2 d.day day) :
      DateText d (year ++ '-' :: (month ++ '-' :: day))

inductive FractionText : Nat → List Char → Prop where
  | none : FractionText 0 []
  | some {millis : Nat} {fraction : List Char} (nonzero : millis ≠ 0) (digits : Digits.Padded 3 millis fraction) :
      FractionText millis ('.' :: fraction)

inductive ClockText (c : Clock) : List Char → Prop where
  | written {hour minute second fraction : List Char} (hours : Digits.Padded 2 c.hour hour)
      (minutes : Digits.Padded 2 c.minute minute) (seconds : Digits.Padded 2 c.second second)
      (millis : FractionText c.milli fraction) : ClockText c (hour ++ ':' :: (minute ++ ':' :: (second ++ fraction)))

def Denotes (text : List Char) (millis : Int) : Prop :=
  ∃ (day : Nat) (c : Clock) (date clock : List Char), text = date ++ 'T' :: clock ∧ DateText (Date.onDay day) date ∧
    ClockText c clock ∧ millis = day * millisPerDay + c.millis

section Order

variable {d e : Date} {c k : Clock} {m n : Nat} {a b : Int} {s t u v : List Char}

theorem date_before (first : DateText d s) (second : DateText e t) (less : d.Before e ∨ d = e ∧ u < v) :
    s ++ u < t ++ v := by
  cases first with
  | written years same months days =>
    cases second with
    | written otherYears otherSame otherMonths otherDays =>
      simp only [List.append_assoc, List.cons_append]
      rcases less with before | ⟨rfl, behind⟩
      · rw [Date.Before, same, otherSame] at before
        apply Digits.padded_before years otherYears
        rcases before with year | ⟨year, month | ⟨month, day⟩⟩
        · exact .inl (Int.ofNat_lt.mp year)
        · exact .inr ⟨Int.ofNat_inj.mp year, Digits.cons_before _ (Digits.padded_before months otherMonths (.inl month))⟩
        · exact .inr ⟨Int.ofNat_inj.mp year, Digits.cons_before _ (Digits.padded_before months otherMonths
            (.inr ⟨month, Digits.cons_before _ (Digits.padded_before days otherDays (.inl day))⟩))⟩
      · have year := Int.ofNat_inj.mp (same.symm.trans otherSame)
        exact Digits.padded_before years otherYears (.inr ⟨year, Digits.cons_before _
          (Digits.padded_before months otherMonths (.inr ⟨rfl, Digits.cons_before _
            (Digits.padded_before days otherDays (.inr ⟨rfl, behind⟩))⟩))⟩)

theorem fraction_before (first : FractionText m s) (second : FractionText n t) (less : m < n) : s < t := by
  cases first with
  | none =>
    cases second with
    | none => cases less
    | some => exact List.nil_lt_cons _ _
  | some _ digits =>
    cases second with
    | none => cases less
    | some _ otherDigits => exact Digits.cons_before '.' ((Digits.padded_lt_iff digits otherDigits).mp less)

theorem clock_before (first : ClockText c s) (second : ClockText k t) (less : c.millis < k.millis) : s < t := by
  cases first with
  | written hours minutes seconds millis =>
    cases second with
    | written otherHours otherMinutes otherSeconds otherMillis =>
      have parts : c.hour.val < k.hour.val ∨ c.hour.val = k.hour.val ∧ (c.minute.val < k.minute.val ∨
          c.minute.val = k.minute.val ∧ (c.second.val < k.second.val ∨
            c.second.val = k.second.val ∧ c.milli.val < k.milli.val)) := by
        unfold Clock.millis at less
        omega
      refine Digits.padded_before hours otherHours (parts.imp_right (And.imp_right fun parts => Digits.cons_before _ ?_))
      refine Digits.padded_before minutes otherMinutes (parts.imp_right (And.imp_right fun parts => Digits.cons_before _ ?_))
      exact Digits.padded_before seconds otherSeconds
        (parts.imp_right (And.imp_right (fraction_before millis otherMillis)))

theorem clock_below (c : Clock) : c.millis < 86400000 := by
  rw [Clock.millis]
  omega

theorem denoted_before (first : Denotes s a) (second : Denotes t b) (less : a < b) : s < t := by
  obtain ⟨day, c, date, clock, rfl, dates, clocks, rfl⟩ := first
  obtain ⟨otherDay, k, otherDate, otherClock, rfl, otherDates, otherClocks, rfl⟩ := second
  have below := clock_below c
  have otherBelow := clock_below k
  have parts : day < otherDay ∨ day = otherDay ∧ c.millis < k.millis := by
    simp only [millisPerDay] at less
    omega
  refine date_before dates otherDates (parts.imp Date.on_day_before ?_)
  rintro ⟨rfl, later⟩
  exact ⟨rfl, Digits.cons_before _ (clock_before clocks otherClocks later)⟩

theorem denoted_unique (first : Denotes s a) (second : Denotes s b) : a = b := by
  rcases Int.lt_trichotomy a b with less | same | less
  · exact absurd (denoted_before first second less) (List.lt_irrefl s)
  · exact same
  · exact absurd (denoted_before second first less) (List.lt_irrefl s)

end Order

section Writing

theorem date_text {d : Date} (valid : d.Valid) (early : d.year < 10000) : DateText d d.toText := by
  have since := valid.year
  have month := valid.month
  have day := valid.day
  have longest := (Date.month_bounds d.year d.month).2
  have year : Date.yearText d.year = Digits.padded 4 d.year.toNat := if_pos (by omega)
  have text : d.toText = Digits.padded 4 d.year.toNat ++ '-' :: (Digits.padded 2 d.month ++ '-' :: Digits.padded 2 d.day) := by
    rw [Date.toText, year, List.append_assoc, List.cons_append]
  rw [text]
  exact .written (Digits.padded_number 3 _ (show _ < 10000 by omega)) (Int.toNat_of_nonneg (by omega)).symm
    (Digits.padded_number 1 _ (show _ < 100 by omega)) (Digits.padded_number 1 _ (show _ < 100 by omega))

theorem fraction_text (n : Nat) (below : n < 1000) : FractionText n (if n = 0 then [] else '.' :: Digits.padded 3 n) := by
  by_cases none : n = 0
  · subst none
    exact .none
  · rw [if_neg none]
    exact .some none (Digits.padded_number 2 n below)

def clockAt (t : Nat) (below : t < 86400000) : Clock :=
  ⟨⟨t / 3600000, by omega⟩, ⟨t / 60000 % 60, by omega⟩, ⟨t / 1000 % 60, by omega⟩, ⟨t % 1000, by omega⟩⟩

theorem clock_at_millis (t : Nat) (below : t < 86400000) : (clockAt t below).millis = t := by
  change ((t / 3600000 * 60 + t / 60000 % 60) * 60 + t / 1000 % 60) * 1000 + t % 1000 = t
  omega

theorem clock_text (t : Nat) (below : t < 86400000) : ClockText (clockAt t below)
    (Digits.padded 2 (t / 3600000) ++ ':' :: (Digits.padded 2 (t / 60000 % 60) ++ ':' ::
      (Digits.padded 2 (t / 1000 % 60) ++ if t % 1000 = 0 then [] else '.' :: Digits.padded 3 (t % 1000)))) :=
  .written (Digits.padded_number 1 _ (show _ < 100 by omega)) (Digits.padded_number 1 _ (show _ < 100 by omega))
    (Digits.padded_number 1 _ (show _ < 100 by omega)) (fraction_text _ (by omega))

theorem early_dated {millis : Int} (since : 0 ≤ millis)
    (early : (Date.onDay (millis / millisPerDay).toNat).year < 10000) : Dated millis := by
  have day := Int.toNat_of_nonneg (Int.ediv_nonneg since (show 0 ≤ millisPerDay by decide))
  have valid := (Date.on_day_valid (millis / millisPerDay).toNat).year
  rw [Dated, ← day, Date.of_day_counts]
  omega

theorem to_text_denotes {millis : Int} (since : 0 ≤ millis)
    (early : (Date.onDay (millis / millisPerDay).toNat).year < 10000) : Denotes (toText millis) millis := by
  obtain ⟨day, days⟩ := Int.eq_ofNat_of_zero_le (Int.ediv_nonneg since (show 0 ≤ millisPerDay by decide))
  have below : (millis % millisPerDay).toNat < 86400000 := by
    simp only [millisPerDay]
    omega
  have parts : millis = day * millisPerDay + (millis % millisPerDay).toNat := by
    simp only [millisPerDay] at days ⊢
    omega
  have date : Date.ofDay (millis / millisPerDay) = Date.onDay day := by rw [days, Date.of_day_counts]
  rw [days, Int.toNat_natCast] at early
  refine ⟨day, _, _, _, ?_, date_text (Date.on_day_valid day) early, clock_text _ below, ?_⟩
  · rw [toText, date]
    simp only [List.append_assoc, List.cons_append]
  · rw [clock_at_millis]
    exact parts

end Writing

section Bytes

variable {s t : List Char} {a b : Int}

def Ascii (s : List Char) : Prop := ∀ c ∈ s, c.toNat < 0x80

theorem encoded_before (ascii : Ascii s) (other : Ascii t) (less : s < t) : Utf8.encode s < Utf8.encode t := by
  induction s generalizing t with
  | nil =>
    cases t with
    | nil => cases less
    | cons d t =>
      rw [Utf8.encode_cons, Utf8.encode_ascii d (other d List.mem_cons_self)]
      exact List.nil_lt_cons _ _
  | cons c s ih =>
    cases t with
    | nil => cases less
    | cons d t =>
      obtain ⟨first, rest⟩ := List.forall_mem_cons.mp ascii
      obtain ⟨otherFirst, otherRest⟩ := List.forall_mem_cons.mp other
      rw [Utf8.encode_cons, Utf8.encode_cons, Utf8.encode_ascii c first, Utf8.encode_ascii d otherFirst]
      apply List.cons_lt_cons_iff.mpr
      rcases List.cons_lt_cons_iff.mp less with before | ⟨rfl, behind⟩
      · have order : c.toNat < d.toNat := before
        refine .inl (UInt8.lt_iff_toNat_lt.mpr ?_)
        rwa [Utf8.byte_value (by omega), Utf8.byte_value (by omega)]
      · exact .inr ⟨rfl, ih rest otherRest behind⟩

theorem digits_ascii {width n : Nat} (padded : Digits.Padded width n s) : Ascii s := by
  intro c member
  have range := Digits.digit_range c (padded.digits c member)
  have zero : '0'.toNat = 48 := rfl
  omega

theorem denoted_ascii (denotes : Denotes s a) : Ascii s := by
  have apart : ∀ {c : Char} {u v : List Char}, c.toNat < 0x80 → Ascii u → Ascii v → Ascii (u ++ c :: v) :=
    fun ascii front back => List.forall_mem_append.mpr ⟨front, List.forall_mem_cons.mpr ⟨ascii, back⟩⟩
  have fractions : ∀ {n : Nat} {u : List Char}, FractionText n u → Ascii u := by
    intro n u written
    cases written with
    | none => exact fun c member => absurd member List.not_mem_nil
    | some _ digits => exact List.forall_mem_cons.mpr ⟨by decide, digits_ascii digits⟩
  obtain ⟨day, c, _, _, rfl, dates, clocks, _⟩ := denotes
  cases dates with
  | written years _ months days =>
    cases clocks with
    | written hours minutes seconds millis =>
      refine apart (by decide) (apart (by decide) (digits_ascii years) (apart (by decide) (digits_ascii months)
        (digits_ascii days))) (apart (by decide) (digits_ascii hours) (apart (by decide) (digits_ascii minutes) ?_))
      exact List.forall_mem_append.mpr ⟨digits_ascii seconds, fractions millis⟩

theorem denoted_bytes_before (first : Denotes s a) (second : Denotes t b) (less : a < b) :
    Utf8.encode s < Utf8.encode t :=
  encoded_before (denoted_ascii first) (denoted_ascii second) (denoted_before first second less)

end Bytes

end Instant

end TablePeek
