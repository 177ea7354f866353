import Mathlib.Data.List.Induction
import TablePeek.Files.Path
import TablePeek.Proofs.Text.Split

set_option autoImplicit false

namespace TablePeek

namespace Path

-- Slashes and single dots, as they may be put behind a path without leading it elsewhere.
inductive Still : Path → Prop where
  | none : Still []
  | slash {rest : Path} (more : Still rest) : Still (slash :: rest)
  | slashDot {rest : Path} (more : Still rest) : Still (slash :: Name.dot :: rest)

structure EndsIn (p : Path) (n : Name) : Prop where
  moves : n ≠ [] ∧ n ≠ Name.here
  whole : slash ∉ n
  placed : ∃ front tail, p = front ++ n ++ tail ∧ (front = [] ∨ ∃ d, front = d ++ [slash]) ∧ Still tail

def Names (p : Path) (n : Name) : Prop := EndsIn p n ∧ n ≠ Name.up

variable {p tail : Path} {n : Name}

theorem still_iff (n : Name) : n.isStill = true ↔ n = [] ∨ n = Name.here := by
  rw [Name.isStill, Bool.or_eq_true, List.isEmpty_iff, decide_eq_true_eq]

theorem moving_iff (n : Name) : n.isStill = false ↔ n ≠ [] ∧ n ≠ Name.here := by
  rw [← Bool.not_eq_true, still_iff, not_or]

theorem parts_behind (d p : Path) : parts (d ++ slash :: p) = parts d ++ parts p :=
  List.splitOn_append_cons_self d p

theorem parts_still (still : Still tail) (p : Path) :
    ∃ stills : List Name, (∀ s ∈ stills, s.isStill = true) ∧ parts (p ++ tail) = parts p ++ stills := by
  induction still generalizing p with
  | none => exact ⟨[], by simp, by rw [List.append_nil, List.append_nil]⟩
  | slash _ ih =>
    obtain ⟨stills, all, split⟩ := ih []
    refine ⟨[] :: stills, List.forall_mem_cons.mpr ⟨rfl, all⟩, ?_⟩
    rw [parts_behind]
    exact congrArg (parts p ++ ·) split
  | slashDot _ ih =>
    obtain ⟨stills, all, split⟩ := ih [Name.dot]
    refine ⟨Name.here :: stills, List.forall_mem_cons.mpr ⟨rfl, all⟩, ?_⟩
    rw [parts_behind]
    exact congrArg (parts p ++ ·) split

theorem still_joined (stills : List Name) (all : ∀ s ∈ stills, s.isStill = true) : Still (stills.flatMap (slash :: ·)) := by
  induction stills with
  | nil => exact .none
  | cons s rest ih =>
    rw [List.forall_mem_cons] at all
    have later := ih all.2
    rcases (still_iff s).mp all.1 with rfl | rfl
    · exact .slash later
    · exact .slashDot later

section Trimmed

theorem trimmed_stills (names stills : List Name) (all : ∀ s ∈ stills, s.isStill = true) :
    trimmed (names ++ stills) = trimmed names := by
  rw [trimmed, trimmed, List.reverse_append,
    List.dropWhile_append_of_pos fun s member => all s (List.mem_reverse.mp member)]

theorem trimmed_moving (names : List Name) (moves : n.isStill = false) : trimmed (names ++ [n]) = names ++ [n] := by
  rw [trimmed, List.reverse_append, List.reverse_singleton, List.singleton_append,
    List.dropWhile_cons_of_neg (by simp [moves]), List.reverse_cons, List.reverse_reverse]

theorem trimmed_cases (names : List Name) :
    (trimmed names = [] ∧ ∀ s ∈ names, s.isStill = true) ∨
      ∃ front n stills, names = front ++ n :: stills ∧ n.isStill = false ∧ (∀ s ∈ stills, s.isStill = true) ∧
        trimmed names = front ++ [n] := by
  induction names using List.reverseRecOn with
  | nil => exact .inl ⟨rfl, by simp⟩
  | append_singleton names last ih =>
    cases still : last.isStill with
    | false => exact .inr ⟨names, last, [], rfl, still, by simp, trimmed_moving names still⟩
    | true =>
      have cut := trimmed_stills names [last] (by simpa using still)
      rcases ih with ⟨none, all⟩ | ⟨front, n, stills, rfl, moves, all, kept⟩
      · refine .inl ⟨cut.trans none, ?_⟩
        rw [List.forall_mem_append, List.forall_mem_singleton]
        exact ⟨all, still⟩
      · refine .inr ⟨front, n, stills ++ [last], by simp, moves, ?_, cut.trans kept⟩
        rw [List.forall_mem_append, List.forall_mem_singleton]
        exact ⟨all, still⟩

theorem trimmed_behind (before names : List Name) (found : (trimmed names).getLast? = some n) :
    (trimmed (before ++ names)).getLast? = some n := by
  rcases trimmed_cases names with ⟨none, _⟩ | ⟨front, m, stills, rfl, moves, all, kept⟩
  · rw [none] at found
    cases found
  · have apart : before ++ (front ++ m :: stills) = before ++ front ++ [m] ++ stills := by simp
    rw [kept, List.getLast?_concat] at found
    rw [apart, trimmed_stills _ _ all, trimmed_moving _ moves, List.getLast?_concat, found]

end Trimmed

theorem last_still (still : Still tail) (p : Path) : trimmed (parts (p ++ tail)) = trimmed (parts p) := by
  obtain ⟨stills, all, split⟩ := parts_still still p
  rw [split, trimmed_stills _ _ all]

theorem last_part_iff : (trimmed p.parts).getLast? = some n ↔ EndsIn p n := by
  constructor
  · intro found
    rcases trimmed_cases p.parts with ⟨none, _⟩ | ⟨front, m, stills, shape, moves, all, kept⟩
    · rw [none] at found
      cases found
    · rw [kept, List.getLast?_concat] at found
      obtain rfl := Option.some.inj found
      refine ⟨(moving_iff m).mp moves, ?_, front.flatMap (· ++ [slash]), stills.flatMap (slash :: ·), ?_, ?_,
        still_joined stills all⟩
      · have among : m ∈ parts p := by rw [shape]; exact List.mem_append_right front List.mem_cons_self
        exact split_on_parts_free p m among
      · rw [← intercalate_around, ← shape, parts, List.intercalate_splitOn]
      · cases front using List.reverseRecOn with
        | nil => exact .inl rfl
        | append_singleton front d => exact .inr ⟨front.flatMap (· ++ [slash]) ++ d, by simp⟩
  · rintro ⟨moves, whole, front, tail, rfl, placed, still⟩
    have alone : (trimmed (parts n)).getLast? = some n := by
      rw [parts, List.splitOn_eq_singleton whole]
      exact congrArg List.getLast? (trimmed_moving [] ((moving_iff n).mpr moves))
    rw [last_still still]
    rcases placed with rfl | ⟨d, rfl⟩
    · exact alone
    · rw [List.append_assoc, List.singleton_append, parts_behind]
      exact trimmed_behind _ _ alone

theorem name_iff : p.name? = some n ↔ Names p n := by
  rw [name?, Option.filter_eq_some_iff, last_part_iff, decide_eq_true_eq, Names]

theorem name_still (still : Still tail) (p : Path) : (p ++ tail).name? = p.name? := by
  rw [name?, name?, last_still still]

theorem name_behind (d : Path) (named : Names p n) : (d ++ slash :: p).name? = some n := by
  have inside := last_part_iff.mpr named.1
  rw [name?, parts_behind, trimmed_behind _ _ inside, Option.filter_some, if_pos (decide_eq_true named.2)]

theorem name_up (last : EndsIn p Name.up) : p.name? = none := by
  rw [name?, last_part_iff.mpr last]
  rfl

end Path

namespace Name

variable {n e : Name}

theorem last_dot (member : dot ∈ n) : ∃ stem e, n = stem ++ dot :: e ∧ dot ∉ e := by
  obtain ⟨e, stem, shape, free⟩ := List.eq_append_cons_of_mem (List.mem_reverse.mpr member)
  refine ⟨stem.reverse, e.reverse, ?_, fun inside => free (List.mem_reverse.mp inside)⟩
  rw [← List.reverse_reverse n, shape]
  simp

theorem extension_behind (stem : Name) (free : dot ∉ e) :
    (stem ++ dot :: e).extension? = if stem = [] then none else some e := by
  have joined : [dot].intercalate (List.splitOn dot stem) = stem := List.intercalate_splitOn dot
  rw [extension?, List.splitOn_append_cons_self, List.splitOn_eq_singleton free]
  cases shape : List.splitOn dot stem with
  | nil => exact absurd shape (List.splitOn_ne_nil dot stem)
  | cons first rest =>
    rw [shape] at joined
    cases rest with
    | nil =>
      obtain rfl : first = stem := List.intercalate_singleton.symm.trans joined
      cases first <;> rfl
    | cons second rest =>
      have filled : stem ≠ [] := by
        rintro rfl
        cases shape
      have last : (second :: rest ++ [e]).getLastD first = e := List.getLastD_concat
      rw [if_neg filled]
      cases rest <;> exact congrArg some last

theorem extension_iff : n.extension? = some e ↔ ∃ stem, n = stem ++ dot :: e ∧ stem ≠ [] ∧ dot ∉ e := by
  constructor
  · intro found
    by_cases member : dot ∈ n
    · obtain ⟨stem, f, rfl, free⟩ := last_dot member
      rw [extension_behind stem free] at found
      split at found
      · cases found
      · rename_i filled
        obtain rfl := Option.some.inj found
        exact ⟨stem, rfl, filled, free⟩
    · rw [extension?, List.splitOn_eq_singleton member] at found
      cases found
  · rintro ⟨stem, rfl, filled, free⟩
    rw [extension_behind stem free, if_neg filled]

end Name

end TablePeek
