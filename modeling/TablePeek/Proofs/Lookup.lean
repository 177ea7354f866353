set_option autoImplicit false

namespace TablePeek

variable {α β : Type} [BEq α] [LawfulBEq α] {l m : List (α × β)}

theorem lookup_listed {k : α} (listed : k ∈ l.map Prod.fst) (other another : Option β) :
    (l.lookup k).or other = (l.lookup k).or another := by
  cases found : l.lookup k with
  | some v => rfl
  | none =>
    rw [List.lookup_eq_none_iff] at found
    obtain ⟨p, member, rfl⟩ := List.mem_map.mp listed
    exact absurd (found p member) (by simp)

theorem lookup_other {k x : α} (other : x ≠ k) (v : β) : ((k, v) :: l).lookup x = l.lookup x := by
  rw [List.lookup_cons, beq_eq_false_iff_ne.mpr other]

theorem lookup_member (distinct : (l.map Prod.fst).Nodup) {p : α × β} (member : p ∈ l) : l.lookup p.1 = some p.2 := by
  induction l with
  | nil => cases member
  | cons q rest ih =>
    rw [List.map_cons, List.nodup_cons] at distinct
    rw [List.lookup_cons]
    rcases List.mem_cons.mp member with rfl | later
    · simp
    · have apart : p.1 ≠ q.1 := fun same => distinct.1 (same ▸ List.mem_map_of_mem later)
      rw [beq_eq_false_iff_ne.mpr apart]
      exact ih distinct.2 later

theorem lookup_perm (perm : l.Perm m) (distinct : (l.map Prod.fst).Nodup) (k : α) : l.lookup k = m.lookup k := by
  have otherDistinct : (m.map Prod.fst).Nodup := (perm.map Prod.fst).nodup distinct
  cases found : m.lookup k with
  | none =>
    rw [List.lookup_eq_none_iff] at found ⊢
    exact fun p member => found p (perm.mem_iff.mp member)
  | some v =>
    obtain ⟨front, back, rfl, _⟩ := List.lookup_eq_some_iff.mp found
    exact lookup_member distinct (perm.mem_iff.mpr (List.mem_append_right front List.mem_cons_self))

theorem lookup_zipped (f : α → β) (keys : List α) (k : α) :
    (keys.zip (keys.map f)).lookup k = if k ∈ keys then some (f k) else none := by
  induction keys with
  | nil => rfl
  | cons key rest ih =>
    rw [List.map_cons, List.zip_cons_cons]
    by_cases same : k = key
    · simp [same]
    · rw [lookup_other same, ih]
      simp [same]

end TablePeek
