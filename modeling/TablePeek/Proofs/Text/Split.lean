set_option autoImplicit false

namespace TablePeek

section Joining

variable {α : Type} {separator : α}

theorem mem_intercalate (x : α) (parts : List (List α)) (member : x ∈ [separator].intercalate parts) :
    x = separator ∨ ∃ part ∈ parts, x ∈ part := by
  induction parts with
  | nil => cases member
  | cons part rest ih =>
    cases rest with
    | nil =>
      rw [List.intercalate_singleton] at member
      exact .inr ⟨part, List.mem_cons_self, member⟩
    | cons next rest =>
      rw [List.intercalate_cons_cons, List.mem_append, List.mem_append, List.mem_singleton] at member
      rcases member with (here | same) | later
      · exact .inr ⟨part, List.mem_cons_self, here⟩
      · exact .inl same
      · rcases ih later with same | ⟨other, among, inside⟩
        · exact .inl same
        · exact .inr ⟨other, List.mem_cons_of_mem part among, inside⟩

theorem intercalate_behind (part : List α) (back : List (List α)) :
    [separator].intercalate (part :: back) = part ++ back.flatMap (separator :: ·) := by
  induction back generalizing part with
  | nil => rw [List.intercalate_singleton, List.flatMap_nil, List.append_nil]
  | cons next back ih =>
    rw [List.intercalate_cons_cons, ih, List.flatMap_cons, List.append_assoc, List.singleton_append, List.cons_append]

theorem intercalate_around (front back : List (List α)) (part : List α) :
    [separator].intercalate (front ++ part :: back) =
      front.flatMap (· ++ [separator]) ++ part ++ back.flatMap (separator :: ·) := by
  induction front with
  | nil => exact intercalate_behind part back
  | cons first front ih =>
    have more : front ++ part :: back ≠ [] := List.append_ne_nil_of_right_ne_nil front (List.cons_ne_nil part back)
    rw [List.cons_append, List.intercalate_cons_of_ne_nil more, ih, List.flatMap_cons]
    simp only [List.append_assoc]

theorem intercalate_ended (parts : List (List α)) (nonempty : parts ≠ []) :
    [separator].intercalate parts ++ [separator] = parts.flatMap (· ++ [separator]) := by
  obtain ⟨front, last, rfl⟩ := (List.eq_nil_or_concat parts).resolve_left nonempty
  rw [List.concat_eq_append, intercalate_around]
  simp

variable [BEq α] [LawfulBEq α]

-- The head part takes what stands before the next separator, so a step touches it alone.
theorem split_on_cons (separator x : α) (rest : List α) : ∃ part parts, List.splitOn separator rest = part :: parts ∧
    (x = separator → List.splitOn separator (x :: rest) = [] :: part :: parts) ∧
    (x ≠ separator → List.splitOn separator (x :: rest) = (x :: part) :: parts) := by
  obtain ⟨part, parts, shape⟩ := List.exists_cons_of_ne_nil (List.splitOn_ne_nil separator rest)
  refine ⟨part, parts, shape, fun same => ?_, fun other => ?_⟩
  · rw [List.splitOn_cons_eq_if_modifyHead, if_pos (beq_iff_eq.mpr same), shape]
  · rw [List.splitOn_cons_eq_if_modifyHead, if_neg (mt beq_iff_eq.mp other), shape, List.modifyHead_cons]

theorem split_on_last (xs : List α) (nonempty : xs ≠ []) (unfinished : xs.getLast? ≠ some separator) :
    (List.splitOn separator xs).getLast? ≠ some [] := by
  induction xs with
  | nil => exact absurd rfl nonempty
  | cons x rest ih =>
    obtain ⟨part, parts, shape, ended, extended⟩ := split_on_cons separator x rest
    cases rest with
    | nil =>
      have other : x ≠ separator := fun same => unfinished (congrArg some same)
      rw [List.splitOn_nil, List.cons.injEq] at shape
      rw [extended other, ← shape.1, ← shape.2]
      simp
    | cons y rest =>
      have last := ih (List.cons_ne_nil _ _) (by simpa using unfinished)
      rw [shape] at last
      by_cases same : x = separator
      · rw [ended same]
        simpa using last
      · rw [extended same]
        cases parts with
        | nil => simp
        | cons next parts => simpa using last

theorem split_on_intercalate_behind (parts : List (List α)) (back : List α) (nonempty : parts ≠ [])
    (free : ∀ part ∈ parts, separator ∉ part) :
    List.splitOn separator ([separator].intercalate parts ++ separator :: back) = parts ++ List.splitOn separator back := by
  rw [List.splitOn_append_cons_self, List.splitOn_intercalate separator free nonempty]

theorem split_on_parts_free (xs : List α) : ∀ part ∈ List.splitOn separator xs, separator ∉ part := by
  induction xs with
  | nil => simp
  | cons x rest ih =>
    obtain ⟨part, parts, shape, ended, extended⟩ := split_on_cons separator x rest
    rw [shape] at ih
    by_cases same : x = separator
    · rw [ended same]
      simpa using ih
    · rw [extended same]
      simpa [Ne.symm same] using ih

theorem split_on_map {f : α → α} (kept : ∀ x, f x = separator ↔ x = separator) (xs : List α) :
    List.splitOn separator (xs.map f) = (List.splitOn separator xs).map (List.map f) := by
  induction xs with
  | nil => simp
  | cons x rest ih =>
    obtain ⟨part, parts, shape, ended, extended⟩ := split_on_cons separator x rest
    rw [List.map_cons, List.splitOn_cons_eq_if_modifyHead, ih, shape]
    by_cases same : x = separator
    · rw [if_pos (beq_iff_eq.mpr ((kept x).mpr same)), ended same]
      rfl
    · rw [if_neg fun moved => same ((kept x).mp (beq_iff_eq.mp moved)), extended same]
      rfl

theorem split_on_length (xs : List α) : (List.splitOn separator xs).length = xs.count separator + 1 := by
  induction xs with
  | nil => simp
  | cons x rest ih =>
    obtain ⟨part, parts, shape, ended, extended⟩ := split_on_cons separator x rest
    rw [shape] at ih
    by_cases same : x = separator
    · rw [ended same, same, List.count_cons_self, List.length_cons, ih]
    · rw [extended same, List.count_cons_of_ne same, ← ih]
      rfl

end Joining

end TablePeek
