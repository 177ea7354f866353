import Mathlib.Data.List.DropRight
import TablePeek.Proofs.Grid.Lines

/-!
The bars of a line. Texts may look like bars, but the widths of the columns tell where the bars of a row stand,
and the texts are what stands between them. Where only the drawn widths are known, two rows with one line have
the same columns as long as those of one row stay below the widest there can be.
-/

set_option autoImplicit false

namespace TablePeek

namespace Grid

section Bars

variable {front other back otherBack : Line}

theorem of_text_append_bar (before back : Line) :
    Width.ofText ((before ++ ['|']) ++ back) = Width.ofText (before ++ ['|']) + Width.ofText back := by
  have whole := Width.of_text_parted Width.bar_parts before back
  have alone := Width.of_text_parted Width.bar_parts before []
  rw [show Width.ofText [] = 0 from rfl] at alone
  rw [List.append_assoc, List.singleton_append, whole, alone, Nat.add_zero]

theorem of_text_behind (barred : ['|'] <:+ front) (back : Line) :
    Width.ofText (front ++ back) = Width.ofText front + Width.ofText back := by
  obtain ⟨before, rfl⟩ := barred
  exact of_text_append_bar before back

theorem bar_behind (barred : [' ', '|'] <:+ front) : ['|'] <:+ front := (List.suffix_cons ' ' ['|']).trans barred

theorem of_text_bar : Width.ofText ['|'] = 1 := Width.of_text_led Width.bar_parts []

theorem barred_positive (barred : ['|'] <:+ front) : 1 ≤ Width.ofText front := by
  obtain ⟨before, rfl⟩ := barred
  rw [Width.of_text_parted Width.bar_parts]
  omega

theorem barred_apart_positive (barred : [' ', '|'] <:+ front) : 2 ≤ Width.ofText front := by
  obtain ⟨before, rfl⟩ := barred
  rw [Width.of_text_parted Width.space_parts, of_text_bar]
  omega

theorem rest_barred {rest : Line} (barred : [' ', '|'] <:+ front ++ rest) (within : ['|'] <:+ front) :
    rest = [] ∨ [' ', '|'] <:+ rest := by
  match rest with
  | [] => exact .inl rfl
  | [c] =>
    -- The bar before the last one would have to be a blank.
    obtain ⟨before, rfl⟩ := within
    obtain ⟨start, same⟩ := barred
    have tails := congrArg (fun l => l.reverse.take 2) same
    simp at tails
  | b :: c :: rest =>
    exact .inr (List.suffix_of_suffix_length_le barred (List.suffix_append front _) (by simp))

theorem fronts_level (same : front ++ back = other ++ otherBack) (barred : ['|'] <:+ front)
    (otherBarred : ['|'] <:+ other) (level : Width.ofText front = Width.ofText other) : front = other := by
  have shorter : ∀ {p q : Line}, ['|'] <:+ p → ['|'] <:+ q → Width.ofText p = Width.ofText q → p <+: q → p = q := by
    rintro p _ barred otherBarred level ⟨rest, rfl⟩
    rw [of_text_behind barred] at level
    by_cases none : rest = []
    · rw [none, List.append_nil]
    · have wide : 1 ≤ Width.ofText rest := by
        refine barred_positive (List.suffix_of_suffix_length_le otherBarred (List.suffix_append p rest) ?_)
        exact List.length_pos_iff.mpr none
      omega
  rcases List.prefix_or_prefix_of_prefix ⟨back, rfl⟩ (same ▸ ⟨otherBack, rfl⟩ : other <+: front ++ back) with first | second
  · exact shorter barred otherBarred level first
  · exact (shorter otherBarred barred level.symm second).symm

theorem fronts_not_adjacent (same : front ++ back = other ++ otherBack) (barred : [' ', '|'] <:+ front)
    (otherBarred : [' ', '|'] <:+ other) : Width.ofText other ≠ Width.ofText front + 1 := by
  intro adjacent
  rcases List.prefix_or_prefix_of_prefix ⟨back, rfl⟩ (same ▸ ⟨otherBack, rfl⟩ : other <+: front ++ back) with first | second
  · obtain ⟨rest, rfl⟩ := first
    rw [of_text_behind (bar_behind barred)] at adjacent
    rcases rest_barred otherBarred (bar_behind barred) with none | more
    · rw [none, show Width.ofText [] = 0 from rfl] at adjacent
      omega
    · have wide := barred_apart_positive more
      omega
  · obtain ⟨rest, rfl⟩ := second
    rw [of_text_behind (bar_behind otherBarred)] at adjacent
    omega

end Bars

abbrev Cells := List (Nat × Line)

def barred (cells : Cells) : Line := cells.flatMap fun c => pad c.1 c.2 ++ ['|']

def past (front : Line) (c : Nat × Line) : Line := front ++ (pad c.1 c.2 ++ ['|'])

section Cells

variable {front other line otherLine : Line} {c d : Nat × Line} {w v : Nat} {cells others : Cells}

theorem past_rest (front : Line) (c : Nat × Line) (cells : Cells) :
    front ++ barred (c :: cells) = past front c ++ barred cells := by
  rw [barred, List.flatMap_cons, ← List.append_assoc]
  rfl

theorem past_barred (front : Line) (c : Nat × Line) : [' ', '|'] <:+ past front c := by
  have barred : pad c.1 c.2 ++ ['|'] = (' ' :: c.2 ++ List.replicate (c.1 - Width.ofText c.2) ' ') ++ [' ', '|'] := by
    rw [pad, List.append_assoc]
    rfl
  rw [past, barred, ← List.append_assoc]
  exact List.suffix_append _ _

theorem past_width (behind : ['|'] <:+ front) (fits : Width.ofText c.2 ≤ c.1) :
    Width.ofText (past front c) = Width.ofText front + (c.1 + 3) := by
  rw [past, of_text_behind behind, Width.of_text_parted Width.bar_parts, pad_width fits]
  rfl

theorem blanks_dropped (line : Line) (n : Nat) (ended : line.getLast? ≠ some ' ') :
    (line ++ List.replicate n ' ').rdropWhile (· = ' ') = line := by
  induction n with
  | zero =>
    rw [List.replicate_zero, List.append_nil, List.rdropWhile_eq_self_iff]
    intro nonempty blank
    exact ended (by rw [List.getLast?_eq_some_getLast nonempty, of_decide_eq_true blank])
  | succ n ih => rw [List.replicate_succ', ← List.append_assoc, List.rdropWhile_concat_pos _ _ _ (by simp), ih]

theorem pad_injective (ended : line.getLast? ≠ some ' ') (otherEnded : otherLine.getLast? ≠ some ' ')
    (same : pad w line = pad w otherLine) : line = otherLine := by
  rw [pad, pad, List.cons_append, List.cons_append, List.cons_append, List.cons_append, List.cons.injEq] at same
  have texts := congrArg (List.rdropWhile (· = ' ')) (List.append_cancel_right same.2)
  rwa [blanks_dropped line _ ended, blanks_dropped otherLine _ otherEnded] at texts

-- As far as columns are drawn alike, only one at its widest can hide two columns more.
theorem drawn_alike (alike : padded w = padded v) (narrow : w ≤ 65534) (room : v ≤ 65535) :
    v = w ∨ v = w + 1 ∨ w = v + 1 ∨ v = w + 2 := by
  simp only [padded, maxWidth] at alike
  omega

abbrev DrawnAlike (cells others : Cells) : Prop := List.Forall₂ (fun c d => padded c.1 = padded d.1) cells others

abbrev Fit (limit : Nat) (cells : Cells) : Prop := ∀ c ∈ cells, Width.ofText c.2 ≤ c.1 ∧ c.1 ≤ limit

-- A line that has fallen two columns behind another one cannot catch up.
theorem never_level (alike : DrawnAlike cells others) (fit : Fit 65534 cells) (otherFit : Fit 65535 others)
    (behind : ['|'] <:+ front) (otherBehind : ['|'] <:+ other) (ahead : Width.ofText front + 2 ≤ Width.ofText other) :
    front ++ barred cells ≠ other ++ barred others := by
  intro same
  induction alike generalizing front other with
  | nil =>
    have level := congrArg Width.ofText same
    simp only [barred, List.flatMap_nil, List.append_nil] at level
    omega
  | @cons c d cells others drawn _ ih =>
    rw [Fit, List.forall_mem_cons] at fit otherFit
    rw [past_rest, past_rest] at same
    have bar := past_barred front c
    have otherBar := past_barred other d
    have width := past_width behind fit.1.1
    have otherWidth := past_width otherBehind otherFit.1.1
    have apart := fronts_not_adjacent same bar otherBar
    have either := drawn_alike drawn fit.1.2 otherFit.1.2
    exact ih fit.2 otherFit.2 (bar_behind bar) (bar_behind otherBar) (by omega) same

theorem widths_from_line (alike : DrawnAlike cells others) (fit : Fit 65534 cells) (otherFit : Fit 65535 others)
    (behind : ['|'] <:+ front) (otherBehind : ['|'] <:+ other) (level : Width.ofText front = Width.ofText other)
    (same : front ++ barred cells = other ++ barred others) : cells.map Prod.fst = others.map Prod.fst := by
  induction alike generalizing front other with
  | nil => rfl
  | @cons c d cells others drawn alike ih =>
    rw [Fit, List.forall_mem_cons] at fit otherFit
    rw [past_rest, past_rest] at same
    have bar := past_barred front c
    have otherBar := past_barred other d
    have width := past_width behind fit.1.1
    have otherWidth := past_width otherBehind otherFit.1.1
    have equal : c.1 = d.1 := by
      have apart := fronts_not_adjacent same bar otherBar
      have otherApart := fronts_not_adjacent same.symm otherBar bar
      have either := drawn_alike drawn fit.1.2 otherFit.1.2
      have caught : ¬ Width.ofText (past front c) + 2 ≤ Width.ofText (past other d) := fun ahead =>
        never_level alike fit.2 otherFit.2 (bar_behind bar) (bar_behind otherBar) ahead same
      omega
    rw [List.map_cons, List.map_cons, equal]
    exact congrArg _ (ih fit.2 otherFit.2 (bar_behind bar) (bar_behind otherBar) (by omega) same)

abbrev Ended (cells : Cells) : Prop := ∀ c ∈ cells, Width.ofText c.2 ≤ c.1 ∧ c.2.getLast? ≠ some ' '

theorem cells_from_line (widths : cells.map Prod.fst = others.map Prod.fst) (ended : Ended cells)
    (otherEnded : Ended others) (behind : ['|'] <:+ front) (same : front ++ barred cells = front ++ barred others) :
    cells = others := by
  induction cells generalizing others front with
  | nil => exact (List.map_eq_nil_iff.mp widths.symm).symm
  | cons c cells ih =>
    cases others with
    | nil => cases widths
    | cons d others =>
      obtain ⟨equal, later⟩ := List.cons.inj widths
      rw [Ended, List.forall_mem_cons] at ended otherEnded
      rw [past_rest, past_rest] at same
      have bar := past_barred front c
      have level : Width.ofText (past front c) = Width.ofText (past front d) := by
        rw [past_width behind ended.1.1, past_width behind otherEnded.1.1, equal]
      have fronts := fronts_level same (bar_behind bar) (bar_behind (past_barred front d)) level
      have pads := List.append_cancel_right (List.append_cancel_left fronts)
      rw [equal] at pads
      have first : c = d := Prod.ext equal (pad_injective ended.1.2 otherEnded.1.2 pads)
      rw [← fronts] at same
      rw [first, ih later ended.2 otherEnded.2 (bar_behind bar) same]

end Cells

end Grid

end TablePeek
