import TablePeek.Column
import TablePeek.Proofs.Number.Shown

set_option autoImplicit false

namespace TablePeek.Cell

inductive Guessed (s : String) : Cell → Prop where
  | null (empty : s = "") : Guessed s .null
  | yes (word : s = "true") : Guessed s (.bool true)
  | no (word : s = "false") : Guessed s (.bool false)
  | integer (i : Int64) (whole : SpellsInteger s.toList i.toInt) : Guessed s (.integer i)
  | float (x : Binary64) (wide : ∀ i : Int64, ¬ SpellsInteger s.toList i.toInt) (number : SpellsFloat s.toList x) :
    Guessed s (.float x)
  | text (filled : s ≠ "") (other : s ≠ "true" ∧ s ≠ "false") (wide : ∀ i : Int64, ¬ SpellsInteger s.toList i.toInt)
      (noNumber : ∀ x : Binary64, ¬ SpellsFloat s.toList x) : Guessed s (.text s)

variable {s : String}

theorem no_integer_iff : (∀ i : Int64, ¬ SpellsInteger s.toList i.toInt) ↔ readInt64? s.toList = none := by
  rw [Option.eq_none_iff_forall_ne_some]
  exact forall_congr' fun i => not_congr (read_int64_iff i).symm

theorem no_float_iff : (∀ x : Binary64, ¬ SpellsFloat s.toList x) ↔ Binary64.read? s.toList = none := by
  rw [Option.eq_none_iff_forall_ne_some]
  exact forall_congr' fun x => not_congr (read_binary64_iff x).symm

theorem guess_guessed (s : String) : Guessed s (guess s) := by
  rw [guess]
  split
  · exact .null ‹_›
  split
  · exact .yes ‹_›
  split
  · exact .no ‹_›
  rename_i filled yes no
  split
  · rename_i i whole
    exact .integer i ((read_int64_iff i).mp whole)
  rename_i wide
  split
  · rename_i x number
    exact .float x (no_integer_iff.mpr wide) ((read_binary64_iff x).mp number)
  · rename_i noNumber
    exact .text filled ⟨yes, no⟩ (no_integer_iff.mpr wide) (no_float_iff.mpr noNumber)

theorem guess_of_guessed {c : Cell} (guessed : Guessed s c) : guess s = c := by
  cases guessed with
  | null empty => rw [empty]; rfl
  | yes word => rw [word]; rfl
  | no word => rw [word]; rfl
  | integer i whole => exact guess_of_int64 ((read_int64_iff i).mpr whole)
  | float x wide number => exact guess_of_binary64 (no_integer_iff.mp wide) ((read_binary64_iff x).mpr number)
  | text filled other wide noNumber =>
    rw [guess, if_neg filled, if_neg other.1, if_neg other.2, no_integer_iff.mp wide, no_float_iff.mp noNumber]

/-- A field is guessed to be a cell exactly if it is spelled as that cell: no text for a null, a word for a truth value,
digits for a whole number of 64 bits, the nearest float for any other numeral, and itself where it is none of these. Digits
of an exponent count until they make 65 536; a numeral whose exponent is below 655 360, or works against few digits, is
the float nearest to all of its value. -/
theorem guess_classified (s : String) : (∀ c, guess s = c ↔ Guessed s c) ∧
    ∀ (sign : Option Bool) (w : Spelled), s.toList = Power.signText sign ++ w.toText → w.InFull →
      ∀ x, SpellsFloat s.toList x ↔ Binary64.Rounded (sign = some true) w.value x := by
  refine ⟨fun c => ⟨fun guessed => guessed ▸ guess_guessed s, guess_of_guessed⟩, fun sign w written full x => ?_⟩
  rw [← read_binary64_iff, written]
  exact w.read_in_full full sign x

def raised : Spelled where
  whole := "12".toList
  decimals := some "5".toList
  power := some (.leastCut none)
  whole_digits := List.all_eq_true.mp (by decide)
  decimals_digits := List.all_eq_true.mp (by decide)
  some_digit := List.cons_ne_nil _ _

theorem raised_classified : "-12.5e655360".toList = Power.signText (some true) ++ raised.toText ∧ raised.InFull ∧
    ∀ x, SpellsFloat "-12.5e655360".toList x ↔ Binary64.Rounded true raised.value x := by
  have written : "-12.5e655360".toList = Power.signText (some true) ++ raised.toText := by decide
  have full : raised.InFull := .inr fun p some => .inr (by cases some; decide)
  exact ⟨written, full, (guess_classified "-12.5e655360").2 (some true) raised written full⟩

-- The first five digits of the exponent make up for 65 536 decimals, all six for ten times as many.
def balanced (zeros : Nat) : Spelled where
  whole := ['0']
  decimals := some (List.replicate zeros '0' ++ ['1'])
  power := some (.leastCut none)
  whole_digits := Digits.zeros_digits 1
  decimals_digits := List.forall_mem_append.mpr ⟨Digits.zeros_digits zeros, List.forall_mem_singleton.mpr rfl⟩
  some_digit := List.cons_ne_nil _ _

theorem balanced_scaled (zeros : Nat) (e : Int) : (balanced zeros).scaled e = 10 ^ (e - (zeros + 1 : Nat)) := by
  have digits : Digits.toNat (balanced zeros).digits = 1 := Digits.to_nat_zeros_front (zeros + 1) ['1']
  have length : ((balanced zeros).decimals.getD []).length = zeros + 1 := by simp [balanced]
  rw [Spelled.scaled, digits, length, Nat.cast_one, one_mul]

theorem power_infinite {e : Nat} (large : 1024 ≤ e) : Binary64.Rounded false (10 ^ (e : Int)) (.infinity false) := by
  refine .infinite ?_
  have two : (0 : ℚ) ≤ 2 ^ 970 := by positivity
  have ten : (2 : ℚ) ^ 1024 ≤ 10 ^ 1024 := pow_le_pow_left₀ (by norm_num) (by norm_num) 1024
  have more : (10 : ℚ) ^ 1024 ≤ 10 ^ e := pow_le_pow_right₀ (by norm_num) large
  rw [zpow_natCast]
  exact (sub_le_self _ two).trans (ten.trans more)

theorem balanced_point (zeros : Nat) : '.' ∈ (balanced zeros).toText := by
  simp [balanced, Spelled.toText, Spelled.fractionText]

theorem balanced_counts (zeros : Nat) : (balanced zeros).Counts 65536 :=
  ⟨5, ⟨by decide, by decide, by decide⟩, by decide⟩

theorem long_exponent_guessed : Binary64.Rounded false (balanced 65535).value (.infinity false) ∧
    guess (String.ofList (balanced 65535).toText) = .float (.ofRatio false 1 1) ∧
    Binary64.ofRatio false 1 1 ≠ .infinity false := by
  have written := String.toList_ofList (l := (balanced 65535).toText)
  refine ⟨?_, ?_, by decide +kernel⟩
  · have exponent : (balanced 65535).exponent - (65535 + 1 : Nat) = (589824 : Nat) := by decide
    rw [Spelled.value, balanced_scaled, exponent]
    exact power_infinite (by decide)
  · have one : (10 : ℚ) ^ (65536 - (65535 + 1 : Nat) : Int) = (1 : Nat) / (1 : Nat) := by norm_num
    apply guess_of_binary64
    · rw [written]
      exact point_no_integer (balanced_point 65535)
    · rw [written, read_binary64_iff]
      refine .numeral none (balanced 65535) 65536 (balanced_counts 65535) _ ?_
      rw [balanced_scaled, one]
      exact Binary64.of_ratio_rounded false 1 Nat.one_pos

theorem guess_grid_text (x : Binary64) : guess (ColumnType.float64.entryText x) = .float x := by
  have written : (ColumnType.float64.entryText x).toList = Layout.grid.write x := String.toList_ofList
  apply guess_of_binary64
  · rw [written, Layout.grid.place_no_integer rfl]
  · rw [written, Layout.grid.write_read]

theorem guess_column_texts (entries : List (Option Binary64)) :
    (Column.mk .float64 entries).texts.map guess = entries.map fun e => (e.map Cell.float).getD .null := by
  rw [Column.texts, List.map_map]
  apply List.map_congr_left
  intro e _
  cases e with
  | none => rfl
  | some x => exact guess_grid_text x

-- In full a float may be written as a whole number of 64 bits, which is then guessed; it is the same number, and only
-- the zero with a minus is written in another way.
theorem guess_float_text (x : Binary64) : guess (toText (.float x)) = .float x ∨
    ∃ i : Int64, guess (toText (.float x)) = .integer i ∧ SameNumber (.float (.ofInt i.toInt)) (.float x) ∧
      (x ≠ .zero true → toText (.integer i) = toText (.float x)) := by
  have written : (toText (.float x)).toList = Layout.plain.write x := String.toList_ofList
  have number := Layout.plain.write_read x
  cases whole : readInt64? (Layout.plain.write x) with
  | none => exact .inl (guess_of_binary64 (by rw [written, whole]) (by rw [written, number]))
  | some i =>
    refine .inr ⟨i, guess_of_int64 (by rw [written, whole]), whole_read_alike whole number, fun other => ?_⟩
    exact congrArg String.ofList ((plain_integer_text whole).resolve_right other)

theorem text_settles (s : String) (other : guess s ≠ .float (.zero true)) :
    toText (guess (toText (guess s))) = toText (guess s) := by
  have made := guess_guessed s
  cases guessed : guess s with
  | null => rfl
  | bool b => cases b <;> rfl
  | integer i => rw [guess_integer_text]
  | text t =>
    rw [guessed] at made
    cases made
    simp only [toText, guessed]
  | float x =>
    rcases guess_float_text x with same | ⟨i, whole, _, text⟩
    · rw [same]
    · rw [whole]
      exact text fun zero => other (by rw [guessed, zero])

/-- The numbers that are shown read back as the same numbers: floats from the texts of a column and, where these are not
read as a whole number equal to them, from the texts of cells, and whole numbers always. So the text of a field's cell
is the text of its own cell, but for the zero with a minus. -/
theorem numbers_read_back :
    (∀ entries : List (Option Binary64),
      (Column.mk .float64 entries).texts.map guess = entries.map fun e => (e.map Cell.float).getD .null) ∧
    (∀ x : Binary64, guess (toText (.float x)) = .float x ∨
      ∃ i : Int64, guess (toText (.float x)) = .integer i ∧ SameNumber (.float (.ofInt i.toInt)) (.float x)) ∧
    (∀ i : Int64, guess (toText (.integer i)) = .integer i) ∧
    ∀ s : String, guess s ≠ .float (.zero true) → toText (guess (toText (guess s))) = toText (guess s) := by
  refine ⟨guess_column_texts, fun x => ?_, guess_integer_text, text_settles⟩
  exact (guess_float_text x).imp id fun ⟨i, whole, same, _⟩ => ⟨i, whole, same⟩

theorem whole_float_settles : guess "0.00" = .float (.zero false) ∧ guess (toText (guess "0.00")) = .integer 0 ∧
    toText (guess (toText (guess "0.00"))) = toText (guess "0.00") := by
  have other : guess "0.00" ≠ .float (.zero true) := by decide +kernel
  exact ⟨by decide +kernel, by decide +kernel, numbers_read_back.2.2.2 "0.00" other⟩

example : toText (guess "-0.00") = "-0" ∧ toText (guess "-0") = "0" := by decide +kernel

end TablePeek.Cell
