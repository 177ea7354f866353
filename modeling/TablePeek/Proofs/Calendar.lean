import Mathlib.Tactic.IntervalCases
import TablePeek.Calendar

/-!
Dates of the proleptic Gregorian calendar, day by day: what date follows a date is said by the lengths of the months.
The computation of dates agrees with that, and later days have later dates.
-/

set_option autoImplicit false

namespace TablePeek

namespace Date

def LeapYear (year : Int) : Prop := year % 4 = 0 ∧ (year % 100 = 0 → year % 400 = 0)

instance : DecidablePred LeapYear := fun _ => inferInstanceAs (Decidable (_ ∧ _))

def monthLength (year : Int) (month : Nat) : Nat :=
  if month = 2 then if LeapYear year then 29 else 28
  else if month ∈ [4, 6, 9, 11] then 30 else 31

def next (d : Date) : Date :=
  if d.day < monthLength d.year d.month then ⟨d.year, d.month, d.day + 1⟩
  else if d.month < 12 then ⟨d.year, d.month + 1, 1⟩
  else ⟨d.year + 1, 1, 1⟩

def onDay : Nat → Date
  | 0 => ⟨1970, 1, 1⟩
  | n + 1 => (onDay n).next

section Period

-- Years of a period begin in March: the year and the day of the year, both counted from zero.
structure Place (y k : Nat) : Prop where
  year : y < 400
  day : k < 365 ∨ k = 365 ∧ LeapYear (y + 1)

variable {y k : Nat}

-- Of the days that the computation takes off, the one for leap years is one more late in the last year of four.
theorem year_of_place (place : Place y k) : yearOfPeriod (daysBefore y + k) = y := by
  obtain ⟨year, day⟩ := place
  obtain ⟨a, b, c, rfl, century, leap⟩ : ∃ a b c, y = 100 * a + 4 * b + c ∧ b < 25 ∧ c < 4 :=
    ⟨y / 100, y % 100 / 4, y % 4, by omega, by omega, by omega⟩
  have before : daysBefore (100 * a + 4 * b + c) = 36524 * a + 1461 * b + 365 * c := by
    rw [daysBefore]
    omega
  have whole : k = 365 → c = 3 ∧ (b = 24 → a = 3) := by
    simp only [LeapYear] at day
    omega
  rw [before, yearOfPeriod]
  by_cases last : a = 3 ∧ b = 24 ∧ c = 3 ∧ k = 365
  · obtain ⟨rfl, rfl, rfl, rfl⟩ := last
    rfl
  have periods : (36524 * a + 1461 * b + 365 * c + k) / 146096 = 0 := by omega
  have centuries : (36524 * a + 1461 * b + 365 * c + k) / 36524 = a := by omega
  rw [periods, centuries]
  omega

theorem place_below (place : Place y k) : daysBefore y + k < 146097 := by
  obtain ⟨year, day⟩ := place
  rw [daysBefore]
  omega

theorem year_ends (place : Place y k) (last : ¬ Place y (k + 1)) :
    (k = 364 ∧ ¬ LeapYear (y + 1) ∨ k = 365 ∧ LeapYear (y + 1)) ∧
      (y < 399 ∧ daysBefore y + (k + 1) = daysBefore (y + 1) ∨ y = 399 ∧ daysBefore y + (k + 1) = 146097) := by
  obtain ⟨year, day⟩ := place
  have ended : k = 364 ∧ ¬ LeapYear (y + 1) ∨ k = 365 ∧ LeapYear (y + 1) := by
    rcases day with common | leapDay
    · have full : ¬ k + 1 < 365 := fun early => last ⟨year, .inl early⟩
      exact .inl ⟨by omega, fun leap => last ⟨year, .inr ⟨by omega, leap⟩⟩⟩
    · exact .inr leapDay
  refine ⟨ended, ?_⟩
  have fours : (y + 1) / 4 = y / 4 + if (y + 1) % 4 = 0 then 1 else 0 := by split <;> omega
  have hundreds : (y + 1) / 100 = y / 100 + if (y + 1) % 100 = 0 then 1 else 0 := by split <;> omega
  simp only [LeapYear] at ended
  rw [daysBefore, daysBefore, fours, hundreds]
  split <;> split <;> omega

theorem place_exists (n : Nat) (below : n < 146097) : ∃ y k, Place y k ∧ n = daysBefore y + k := by
  induction n with
  | zero => exact ⟨0, 0, ⟨by decide, .inl (by decide)⟩, rfl⟩
  | succ n ih =>
    obtain ⟨y, k, place, rfl⟩ := ih (Nat.lt_of_succ_lt below)
    by_cases next : Place y (k + 1)
    · exact ⟨y, k + 1, next, rfl⟩
    · rcases (year_ends place next).2 with ⟨more, first⟩ | ⟨_, beyond⟩
      · exact ⟨y + 1, 0, ⟨by omega, .inl (by decide)⟩, first⟩
      · omega

def dayAt (p : Int) (n : Nat) : Int := p * period + n - 719468

theorem day_at_succ (p : Int) (n : Nat) : dayAt p n + 1 = dayAt p (n + 1) := by
  unfold dayAt
  omega

theorem day_at_period (p : Int) : dayAt p 146097 = dayAt (p + 1) 0 := by
  simp only [dayAt, period]
  omega

theorem day_at_exists (days : Int) : ∃ p y k, Place y k ∧ days = dayAt p (daysBefore y + k) := by
  have inPeriod := Int.emod_nonneg (days + 719468) (show period ≠ 0 by decide)
  have below := Int.emod_lt_of_pos (days + 719468) (show 0 < period by decide)
  have parts := Int.mul_ediv_add_emod (days + 719468) period
  obtain ⟨n, rest⟩ := Int.eq_ofNat_of_zero_le inPeriod
  rw [rest] at below parts
  obtain ⟨y, k, place, rfl⟩ := place_exists n (Int.ofNat_lt.mp below)
  refine ⟨(days + 719468) / period, y, k, place, ?_⟩
  rw [dayAt, Int.mul_comm, parts]
  omega

def inYear (year : Int) (k : Nat) : Date :=
  let m := (5 * k + 2) / 153
  let month := if m < 10 then m + 3 else m - 9
  ⟨year + (if month ≤ 2 then 1 else 0), month, k - (153 * m + 2) / 5 + 1⟩

theorem of_day_place (p : Int) (place : Place y k) : ofDay (dayAt p (daysBefore y + k)) = inYear (p * 400 + y) k := by
  have below := place_below place
  have shifted : dayAt p (daysBefore y + k) + 719468 = (daysBefore y + k : Nat) + p * period := by
    rw [dayAt]
    omega
  have inPeriod : ((daysBefore y + k : Nat) + p * period) % period = (daysBefore y + k : Nat) := by
    rw [Int.add_mul_emod_self_right]
    exact Int.emod_eq_of_lt (Int.natCast_nonneg _) (Int.ofNat_lt.mpr below)
  have periods : ((daysBefore y + k : Nat) + p * period) / period = p := by
    have first : ((daysBefore y + k : Nat) : Int) / period = 0 :=
      Int.ediv_eq_zero_of_lt (Int.natCast_nonneg _) (Int.ofNat_lt.mpr below)
    rw [Int.add_mul_ediv_right _ _ (by decide), first, Int.zero_add]
  have year := year_of_place place
  have day : daysBefore y + k - daysBefore y = k := Nat.add_sub_cancel_left _ _
  simp only [ofDay, shifted, inPeriod, periods, Int.toNat_natCast, year, day]
  rfl

end Period

section Months

-- Months counted from March, and the days of such a year before one.
def monthFrom (m : Nat) : Nat := if m < 10 then m + 3 else m - 9

def daysUntil (m : Nat) : Nat := (153 * m + 2) / 5

variable (year : Int) {m day : Nat}

def inMonth (m day : Nat) : Date := ⟨year + (if monthFrom m ≤ 2 then 1 else 0), monthFrom m, day + 1⟩

theorem in_year_month (inside : daysUntil m + day < daysUntil (m + 1)) :
    inYear year (daysUntil m + day) = inMonth year m day := by
  have month : (5 * (daysUntil m + day) + 2) / 153 = m := by
    unfold daysUntil at inside ⊢
    omega
  have rest : daysUntil m + day - (153 * m + 2) / 5 = day := Nat.add_sub_cancel_left _ _
  simp only [inYear, month, rest]
  rfl

theorem month_length (before : m < 11) : daysUntil m + monthLength year (monthFrom m) = daysUntil (m + 1) := by
  interval_cases m <;> rfl

theorem next_in_month (more : day + 1 < monthLength (inMonth year m day).year (monthFrom m)) :
    (inMonth year m day).next = inMonth year m (day + 1) := if_pos more

theorem next_month (before : m < 11) (last : day + 1 = monthLength (inMonth year m day).year (monthFrom m)) :
    (inMonth year m day).next = inMonth year (m + 1) 0 := by
  have spent : ¬ (inMonth year m day).day < monthLength (inMonth year m day).year (inMonth year m day).month :=
    Nat.not_lt.mpr (Nat.le_of_eq last.symm)
  rw [next, if_neg spent]
  interval_cases m <;> simp [inMonth, monthFrom]

theorem next_year (last : day + 1 = monthLength (year + 1) 2) : (inMonth year 11 day).next = inMonth (year + 1) 0 0 := by
  have spent : ¬ (inMonth year 11 day).day < monthLength (inMonth year 11 day).year (inMonth year 11 day).month :=
    Nat.not_lt.mpr (Nat.le_of_eq last.symm)
  rw [next, if_neg spent]
  simp [inMonth, monthFrom]

end Months

theorem month_exists (k : Nat) (below : k < 367) :
    ∃ m day, m < 12 ∧ k = daysUntil m + day ∧ daysUntil m + day < daysUntil (m + 1) := by
  have first : daysUntil ((5 * k + 2) / 153) ≤ k := by
    rw [daysUntil]
    omega
  refine ⟨(5 * k + 2) / 153, k - daysUntil ((5 * k + 2) / 153), by omega, by omega, ?_⟩
  rw [Nat.add_sub_cancel' first, daysUntil]
  omega

theorem february_common (year : Int) : 28 ≤ monthLength year 2 := by
  change 28 ≤ if LeapYear year then 29 else 28
  split <;> decide

theorem february_leap {year : Int} (leap : LeapYear year) : monthLength year 2 = 29 := if_pos leap

-- Only the last month may be shorter than the days that are left for it.
theorem next_in_year (year : Int) (k : Nat) (more : k + 1 < 365 ∨ k + 1 = 365 ∧ LeapYear (year + 1)) :
    (inYear year k).next = inYear year (k + 1) := by
  obtain ⟨m, day, months, rfl, inside⟩ := month_exists k (by omega)
  rw [in_year_month year inside, Nat.add_assoc]
  by_cases lastMonth : m = 11
  · subst lastMonth
    have start : daysUntil 11 = 337 := rfl
    have stop : daysUntil (11 + 1) = 367 := rfl
    have room : day + 1 < monthLength (year + 1) 2 := by
      rcases more with common | ⟨leapDay, leap⟩
      · exact Nat.lt_of_lt_of_le (by omega) (february_common (year + 1))
      · rw [february_leap leap]
        omega
    rw [in_year_month year (by omega)]
    exact next_in_month year room
  · have length := month_length (inMonth year m day).year (show m < 11 by omega)
    by_cases last : day + 1 < monthLength (inMonth year m day).year (monthFrom m)
    · rw [in_year_month year (by omega)]
      exact next_in_month year last
    · have full : day + 1 = monthLength (inMonth year m day).year (monthFrom m) := by omega
      have later : daysUntil m + (day + 1) = daysUntil (m + 1) + 0 := by omega
      have filled : daysUntil (m + 1) + 0 < daysUntil (m + 2) := by
        unfold daysUntil
        omega
      rw [later, in_year_month year filled]
      exact next_month year (by omega) full

theorem next_of_year (year : Int) (k : Nat) (last : k = 364 ∧ ¬ LeapYear (year + 1) ∨ k = 365 ∧ LeapYear (year + 1)) :
    (inYear year k).next = inYear (year + 1) 0 := by
  have start : daysUntil 11 = 337 := rfl
  have stop : daysUntil (11 + 1) = 367 := rfl
  obtain ⟨day, rfl⟩ : ∃ day, k = daysUntil 11 + day := ⟨k - 337, by omega⟩
  have begins : inYear (year + 1) 0 = inMonth (year + 1) 0 0 := @in_year_month (year + 1) 0 0 (by decide)
  rw [in_year_month year (by omega), begins]
  apply next_year year
  rcases last with ⟨day, common⟩ | ⟨leapDay, leap⟩
  · have length : monthLength (year + 1) 2 = 28 := if_neg common
    omega
  · rw [february_leap leap]
    omega

theorem leap_in_period (p : Int) (y : Nat) : LeapYear (p * 400 + y + 1) ↔ LeapYear (y + 1) := by
  simp only [LeapYear]
  omega

theorem of_day_next (days : Int) : ofDay (days + 1) = (ofDay days).next := by
  obtain ⟨p, y, k, place, rfl⟩ := day_at_exists days
  have leap := leap_in_period p y
  rw [of_day_place p place, day_at_succ, Nat.add_assoc]
  by_cases more : Place y (k + 1)
  · have day := more.day
    rw [← leap] at day
    rw [of_day_place p more, next_in_year _ k day]
  · obtain ⟨last, later⟩ := year_ends place more
    rw [← leap] at last
    rw [next_of_year _ k last]
    rcases later with ⟨further, first⟩ | ⟨rfl, first⟩
    · have start : Place (y + 1) 0 := ⟨Nat.succ_lt_succ further, .inl (by decide)⟩
      have year : p * 400 + (y + 1 : Nat) = p * 400 + y + 1 := by omega
      have begins := of_day_place p start
      rwa [Nat.add_zero, ← first, year] at begins
    · have start : Place 0 0 := ⟨by decide, .inl (by decide)⟩
      have year : (p + 1) * 400 + (0 : Nat) = p * 400 + (399 : Nat) + 1 := by omega
      have begins := of_day_place (p + 1) start
      rwa [show daysBefore 0 + 0 = 0 from rfl, ← day_at_period, ← first, year] at begins

/-- The computation of dates is counting days. -/
theorem of_day_counts (n : Nat) : ofDay n = onDay n := by
  induction n with
  | zero => rfl
  | succ n ih => rw [onDay, ← ih, ← of_day_next, Int.natCast_succ]

structure Valid (d : Date) : Prop where
  year : 1970 ≤ d.year
  month : 1 ≤ d.month ∧ d.month ≤ 12
  day : 1 ≤ d.day ∧ d.day ≤ monthLength d.year d.month

def Before (d e : Date) : Prop :=
  d.year < e.year ∨ d.year = e.year ∧ (d.month < e.month ∨ d.month = e.month ∧ d.day < e.day)

variable {d e f : Date}

theorem month_bounds (year : Int) (month : Nat) : 1 ≤ monthLength year month ∧ monthLength year month ≤ 31 := by
  rw [monthLength]
  split
  · split <;> decide
  · split <;> decide

theorem next_valid (valid : d.Valid) : d.next.Valid := by
  obtain ⟨year, month, day⟩ := valid
  rw [next]
  split
  · exact ⟨year, month, Nat.succ_le_succ (Nat.zero_le _), by assumption⟩
  · split
    · exact ⟨year, ⟨Nat.succ_le_succ (Nat.zero_le _), by assumption⟩, Nat.le_refl 1, (month_bounds _ _).1⟩
    · exact ⟨Int.le_trans year (Int.le_add_one (Int.le_refl _)), ⟨Nat.le_refl 1, Nat.succ_le_succ (Nat.zero_le _)⟩,
        Nat.le_refl 1, (month_bounds _ _).1⟩

theorem before_next (d : Date) : d.Before d.next := by
  rw [next]
  split
  · exact .inr ⟨rfl, .inr ⟨rfl, Nat.lt_succ_self _⟩⟩
  · split
    · exact .inr ⟨rfl, .inl (Nat.lt_succ_self _)⟩
    · exact .inl (Int.lt_succ _)

theorem before_trans (first : d.Before e) (second : e.Before f) : d.Before f := by
  unfold Before at first second ⊢
  omega

theorem on_day_valid (n : Nat) : (onDay n).Valid := by
  induction n with
  | zero => exact ⟨by decide, by decide, by decide⟩
  | succ n ih => exact next_valid ih

theorem on_day_before {m n : Nat} (earlier : m < n) : (onDay m).Before (onDay n) := by
  induction earlier with
  | refl => exact before_next _
  | step _ ih => exact before_trans ih (before_next _)

theorem on_day_year {m n : Nat} (earlier : m ≤ n) : (onDay m).year ≤ (onDay n).year := by
  rcases Nat.eq_or_lt_of_le earlier with rfl | earlier
  · exact Int.le_refl _
  · rcases on_day_before earlier with less | ⟨same, _⟩
    · exact Int.le_of_lt less
    · exact Int.le_of_eq same

end Date

end TablePeek
