import TablePeek.Json.Reader

set_option autoImplicit false

namespace TablePeek.Json

-- A member is looked up by its key, so a record must not name a key twice. The reader sees to it
-- at every depth: a key that comes again takes the place it already has.
inductive Value.KeysDistinct : Value → Prop where
  | null : KeysDistinct .null
  | bool (b : Bool) : KeysDistinct (.bool b)
  | integer (i : Int) : KeysDistinct (.integer i)
  | float (x : Binary64) : KeysDistinct (.float x)
  | string (s : String) : KeysDistinct (.string s)
  | array (items : List Value) (each : ∀ v ∈ items, KeysDistinct v) : KeysDistinct (.array items)
  | object (members : List (String × Value)) (distinct : (members.map Prod.fst).Nodup)
      (each : ∀ m ∈ members, KeysDistinct m.2) : KeysDistinct (.object members)

theorem assign_keys (key : String) (v : Value) (members : List (String × Value)) :
    (assign key v members).map Prod.fst =
      if key ∈ members.map Prod.fst then members.map Prod.fst else members.map Prod.fst ++ [key] := by
  induction members with
  | nil => simp [assign]
  | cons m rest ih =>
    obtain ⟨k, w⟩ := m
    by_cases same : k = key
    · simp [assign, same]
    · by_cases later : key ∈ rest.map Prod.fst
      · rw [if_pos later] at ih
        rw [assign, if_neg same, List.map_cons, ih, List.map_cons, if_pos (List.mem_cons_of_mem _ later)]
      · have absent : key ∉ k :: rest.map Prod.fst := by
          intro member
          rcases List.mem_cons.mp member with atHead | inRest
          · exact same atHead.symm
          · exact later inRest
        rw [if_neg later] at ih
        rw [assign, if_neg same, List.map_cons, ih, List.map_cons, if_neg absent, List.cons_append]

theorem assign_keys_distinct (key : String) (v : Value) (members : List (String × Value))
    (distinct : (members.map Prod.fst).Nodup) : ((assign key v members).map Prod.fst).Nodup := by
  rw [assign_keys]
  split
  · exact distinct
  · rename_i absent
    refine List.nodup_append.mpr ⟨distinct, by simp, ?_⟩
    intro k member other atEnd same
    rw [List.mem_singleton.mp atEnd] at same
    exact absent (same ▸ member)

theorem mem_assign (key : String) (v : Value) (members : List (String × Value)) (m : String × Value)
    (member : m ∈ assign key v members) : m = (key, v) ∨ m ∈ members := by
  induction members with
  | nil => exact .inl (List.mem_singleton.mp member)
  | cons first rest ih =>
    obtain ⟨k, w⟩ := first
    by_cases same : k = key
    · rw [assign, if_pos same] at member
      rcases List.mem_cons.mp member with atHead | inRest
      · exact .inl (by rw [atHead, same])
      · exact .inr (List.mem_cons_of_mem _ inRest)
    · rw [assign, if_neg same] at member
      rcases List.mem_cons.mp member with atHead | inRest
      · exact .inr (by rw [atHead]; exact List.mem_cons_self)
      · exact (ih inRest).imp_right (List.mem_cons_of_mem _)

theorem word_value {v w : Value} {ws cs rest : List Char} (read : word v ws cs = .ok (w, rest)) : w = v := by
  induction ws generalizing cs with
  | nil => cases read; rfl
  | cons c ws ih =>
    cases cs with
    | nil => cases read
    | cons d cs =>
      simp only [word] at read
      split at read
      · exact ih read
      · cases read

-- Depth is an index, so that it goes down with each bracket as reading does.
inductive Held : Nat → Value → Prop where
  | null (depth : Nat) : Held depth .null
  | bool (depth : Nat) (b : Bool) : Held depth (.bool b)
  | integer (depth : Nat) (i : Int) (low : -0x8000000000000000 ≤ i) (high : i < 0x10000000000000000) :
      Held depth (.integer i)
  | float (depth : Nat) (x : Binary64) : Held depth (.float x)
  | string (depth : Nat) (s : String) : Held depth (.string s)
  | array (depth : Nat) (items : List Value) (each : ∀ v ∈ items, Held depth v) : Held (depth + 1) (.array items)
  | object (depth : Nat) (members : List (String × Value)) (distinct : (members.map Prod.fst).Nodup)
      (each : ∀ m ∈ members, Held depth m.2) : Held (depth + 1) (.object members)

variable {depth : Nat} {negative : Bool} {g : Gathered} {cs rest : List Char} {v : Value}

theorem held_keys (held : Held depth v) : v.KeysDistinct := by
  induction held with
  | null => exact .null
  | bool _ b => exact .bool b
  | integer _ i => exact .integer i
  | float _ x => exact .float x
  | string _ s => exact .string s
  | array _ items _ ih => exact .array items ih
  | object _ members distinct _ ih => exact .object members distinct ih

theorem whole_range {n : Nat} {i : Int} (whole : whole? negative n = some i) :
    -0x8000000000000000 ≤ i ∧ i < 0x10000000000000000 := by
  rw [whole?] at whole
  split at whole <;> split at whole <;> cases whole <;> omega

theorem gathered_float_held {e : Int} (read : gatheredFloat negative g e cs = .ok (v, rest)) : Held depth v := by
  unfold gatheredFloat at read
  generalize g.toBinary64? negative e = x at read
  cases x with
  | none => cases read
  | some x => cases read; exact .float _ x

theorem with_exponent_held (read : withExponent negative g cs = .ok (v, rest)) : Held depth v := by
  rw [withExponent] at read
  simp only at read
  split at read
  · cases read
  · split at read
    · split at read
      · exact gathered_float_held read
      · split at read
        · cases read
        · cases read; exact .float _ _
    · cases read

theorem after_whole_held {whole : List Char} (read : afterWhole negative whole cs = .ok (v, rest)) : Held depth v := by
  unfold afterWhole at read
  split at read
  · simp only at read
    split at read
    · cases read
    · unfold scaledNumber at read
      split at read
      · exact with_exponent_held read
      · exact with_exponent_held read
      · exact gathered_float_held read
  · exact with_exponent_held read
  · exact with_exponent_held read
  · rw [wholeNumber] at read
    split at read
    · rename_i i whole
      cases read
      exact .integer _ i (whole_range whole).1 (whole_range whole).2
    · exact gathered_float_held read

theorem number_held (read : number negative cs = .ok (v, rest)) : Held depth v := by
  unfold number at read
  simp only at read
  split at read
  · cases read
  · cases read
  · exact after_whole_held read

def Reader.Gives (r : Reader) (depth : Nat) : Prop :=
  ∀ cs v rest, r.read cs = .ok (v, rest) → Held depth v

theorem items_held (r : Reader) (gives : r.Gives depth) {found : List Value} (before : ∀ w ∈ found, Held depth w)
    (read : r.items found cs = .ok (v, rest)) : Held (depth + 1) v := by
  fun_induction Reader.items r found cs with
  | case1 => cases read
  | case2 => cases read
  | case3 found cs w left first rest stop =>
    cases read
    refine .array _ _ fun u member => ?_
    rcases List.mem_cons.mp (List.mem_reverse.mp member) with atHead | earlier
    · exact atHead ▸ gives _ _ _ first
    · exact before u earlier
  | case4 => cases read
  | case5 found cs w left first rest stop more ih =>
    refine ih (fun u member => ?_) read
    rcases List.mem_cons.mp member with atHead | earlier
    · exact atHead ▸ gives _ _ _ first
    · exact before u earlier
  | case6 => cases read

theorem members_held (r : Reader) (gives : r.Gives depth) {found : List (String × Value)}
    (keys : (found.map Prod.fst).Nodup) (before : ∀ m ∈ found, Held depth m.2)
    (read : r.members found cs = .ok (v, rest)) : Held (depth + 1) v := by
  have assigned : ∀ {found : List (String × Value)} {k : String} {w : Value} {behind left : List Char},
      (∀ m ∈ found, Held depth m.2) → r.read behind = .ok (w, left) → ∀ m ∈ assign k w found, Held depth m.2 := by
    intro found k w behind left before value m member
    rcases mem_assign k w found m member with fresh | earlier
    · exact fresh ▸ gives _ _ _ value
    · exact before m earlier
  fun_induction Reader.members r found cs with
  | case1 => cases read
  | case2 => cases read
  | case3 => cases read
  | case4 found cs k behind name w left value rest stop =>
    cases read
    exact .object _ _ (assign_keys_distinct k w found keys) (assigned before value)
  | case5 => cases read
  | case6 found cs k behind name w left value rest stop more ih =>
    exact ih (assign_keys_distinct k w found keys) (assigned before value) read
  | case7 => cases read

-- What lies inside brackets is one level less deep, and without a reader for it there is none.
theorem read_value_held {deeper : Option Reader} (gives : ∀ r ∈ deeper, ∃ d, depth = d + 1 ∧ r.Gives d)
    (read : readValue deeper cs = .ok (v, rest)) : Held depth v := by
  rw [readValue] at read
  split at read
  case h_1 => cases read
  case h_2 => rw [word_value read]; exact .null _
  case h_3 => rw [word_value read]; exact .bool _ true
  case h_4 => rw [word_value read]; exact .bool _ false
  case h_5 => exact number_held read
  case h_6 text _ =>
    cases inside : string text with
    | error f => simp [inside, Except.map] at read
    | ok p =>
      simp only [inside, Except.map, Except.ok.injEq, Prod.mk.injEq] at read
      rw [← read.1]
      exact .string _ p.1
  case h_7 =>
    cases deeper with
    | none => cases read
    | some r =>
      obtain ⟨d, rfl, inner⟩ := gives r rfl
      simp only [Reader.list] at read
      split at read
      · cases read
      · cases read; exact .array _ [] (by simp)
      · exact items_held r inner (by simp) read
  case h_8 =>
    cases deeper with
    | none => cases read
    | some r =>
      obtain ⟨d, rfl, inner⟩ := gives r rfl
      simp only [Reader.object] at read
      split at read
      · cases read
      · cases read; exact .object _ [] (by simp) (by simp)
      · exact members_held r inner (by simp) (by simp) read
  case h_9 =>
    split at read
    · exact number_held read
    · cases read

theorem of_depth_gives (depth : Nat) : (Reader.ofDepth depth).Gives depth := by
  induction depth with
  | zero =>
    intro cs v rest read
    have scalar : readValue none cs = .ok (v, rest) := read
    exact read_value_held (fun r deeper => by cases deeper) scalar
  | succ depth ih =>
    intro cs v rest read
    have value : readValue (some (.ofDepth depth)) cs = .ok (v, rest) := read
    exact read_value_held (fun r deeper => ⟨depth, rfl, Option.some.inj deeper ▸ ih⟩) value

theorem read_held {text : List Char} (accepted : read text = .ok v) : Held maxDepth v := by
  rw [read] at accepted
  split at accepted
  · cases accepted
  · rename_i w rest first
    split at accepted
    · cases accepted
      exact of_depth_gives maxDepth _ _ _ first
    · cases accepted

theorem read_distinct {text : List Char} (accepted : read text = .ok v) : v.KeysDistinct :=
  held_keys (read_held accepted)

end TablePeek.Json
