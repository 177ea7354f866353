import TablePeek.Width

set_option autoImplicit false

namespace TablePeek.Width

theorem measure_cons (ch : Char) (cs : List Char) :
    measure (ch :: cs) =
      ((measure cs).1 + (add ch (measure cs).2).1, (add ch (measure cs).2).2) := rfl

section Owed

-- The columns that the next character may take back from what follows it.
def Start.owed : Start → Int
  | .khmerLetter | .linkedTifinagh | .joinedFlagLetter | .joinedFlagOdd => 1
  | _ => 0

theorem owed_nonneg (s : Start) : 0 ≤ s.owed := by cases s <;> simp [Start.owed]

theorem gained_nonneg (c : Context) (v : Nat) : 0 ≤ c.start.owed + (v : Int) :=
  Int.add_nonneg (owed_nonneg c.start) (Int.natCast_nonneg v)

theorem owed_le_one (s : Start) : s.owed ≤ 1 := by cases s <;> simp [Start.owed]

theorem joiner_owed (s : Start) : s.withJoiner.owed ≤ s.owed := by cases s <;> exact Int.le_refl _

theorem select_owed (c : Context) (s : Selector) : (c.select s).start.owed ≤ c.start.owed := by
  rw [Context.select]
  split
  · exact Int.le_refl _
  · exact owed_nonneg c.start

theorem unselect_owed (c : Context) : c.unselect.start.owed ≤ c.start.owed := by
  rw [Context.unselect]
  split
  · exact Int.le_refl _
  · exact owed_nonneg c.start

theorem khmer_alone (n : Nat) (letter : isKhmerSubscript n = true) : 1 ≤ alone n := by
  have listed : ∀ k < 0x30, isKhmerSubscript (0x1780 + k) = true → 1 ≤ alone (0x1780 + k) := by decide +kernel
  have inside : 0x1780 ≤ n ∧ n < 0x17B0 := by
    simp only [isKhmerSubscript, isBetween, Bool.or_eq_true, Bool.and_eq_true, decide_eq_true_eq] at letter
    omega
  have place : 0x1780 + (n - 0x1780) = n := by omega
  have found := listed (n - 0x1780) (by omega)
  rw [place] at found
  exact found letter

theorem either_owes_none {p : Prop} [Decidable p] {c d : Context} (first : c.start.owed = 0)
    (second : d.start.owed = 0) : (if p then c else d).start.owed = 0 := by
  split
  · exact first
  · exact second

theorem alone_owed (n : Nat) : (startOf n).start.owed ≤ (alone n : Int) := by
  by_cases letter : isKhmerSubscript n = true
  · have one := khmer_alone n letter
    have most := owed_le_one (startOf n).start
    omega
  · have none : (startOf n).start.owed = 0 := by
      rw [startOf, if_neg letter]
      repeat refine either_owes_none rfl ?_
      rfl
    omega

theorem join_owed {n : Nat} {s next : Start} {v : Int} (joined : join? n s = some (v, next)) :
    next.owed ≤ s.owed + v := by
  cases s <;> simp only [join?] at joined
  all_goals
    repeat' split at joined
  all_goals cases joined
  all_goals simp [Start.owed]

theorem add_wide_owed (n : Nat) (c : Context) : (addWide n c).2.start.owed ≤ c.start.owed + (addWide n c).1 := by
  have alone : (standsAlone n).2.start.owed ≤ c.start.owed + (standsAlone n).1 := by
    have owed := owed_nonneg c.start
    have least := alone_owed n
    change (startOf n).start.owed ≤ c.start.owed + (alone n : Int)
    omega
  rw [addWide]
  by_cases plain : c = .plain
  · rwa [if_pos plain]
  rw [if_neg plain]
  by_cases picture : n = 0xFE0F
  · simpa [picture] using select_owed c .picture
  rw [if_neg picture]
  by_cases text : n = 0xFE0E
  · simpa [text] using select_owed c .text
  rw [if_neg text]
  by_cases narrow : (c.selector = .text && textVariation.mem n) = true
  · rw [if_pos narrow]
    exact gained_nonneg c 1
  rw [if_neg narrow]
  by_cases quote : (c.selector = .wideQuote && isQuote n) = true
  · rw [if_pos quote]
    exact gained_nonneg c 2
  rw [if_neg quote]
  by_cases joiner : (c.start.isTransparent && n = 0x200D) = true
  · rw [if_pos joiner]
    simpa [Context.ofStart] using joiner_owed c.start
  rw [if_neg joiner]
  by_cases mark : (c.start.isTransparent && isIgnorableMark n) = true
  · rw [if_pos mark]
    simp [Context.ofStart]
  rw [if_neg mark]
  cases joined : join? n c.start with
  | none => exact alone
  | some pair => exact join_owed joined

theorem add_plain_owed (n : Nat) (c : Context) : (addPlain n c).2.start.owed ≤ c.start.owed + (addPlain n c).1 := by
  rw [addPlain]
  by_cases feed : n = 0x0A
  · rw [if_pos feed]
    exact gained_nonneg c 1
  rw [if_neg feed]
  by_cases crlf : (n = 0x0D && c = .ofStart .lineFeed) = true
  · rw [if_pos crlf]
    exact gained_nonneg c 0
  rw [if_neg crlf]
  by_cases low : n ≤ 0xA0
  · rw [if_pos low]
    exact gained_nonneg c 1
  rw [if_neg low]
  exact add_wide_owed n c

theorem add_owed (ch : Char) (c : Context) : (add ch c).2.start.owed ≤ c.start.owed + (add ch c).1 := by
  rw [add]
  by_cases picture : c.selector = .picture
  · simp only [if_pos picture]
    by_cases emoji : emojiVariation.mem ch.toNat = true
    · rw [if_pos emoji]
      by_cases joined : c.start.isJoinedPicture = true
      · rw [if_pos joined]
        exact gained_nonneg c 0
      · rw [if_neg joined]
        exact gained_nonneg c 2
    · rw [if_neg emoji]
      have unselected := unselect_owed c
      have added := add_plain_owed ch.toNat c.unselect
      omega
  · simp only [if_neg picture]
    exact add_plain_owed ch.toNat c

-- By induction from the end of the text, where nothing is owed.
theorem measure_owed (cs : List Char) : (measure cs).2.start.owed ≤ (measure cs).1 := by
  induction cs with
  | nil => exact Int.le_refl _
  | cons ch cs ih =>
    have added := add_owed ch (measure cs).2
    rw [measure_cons]
    simp only
    omega

theorem measure_nonneg (cs : List Char) : 0 ≤ (measure cs).1 :=
  Int.le_trans (owed_nonneg _) (measure_owed cs)

theorem of_text_measure (cs : List Char) : (ofText cs : Int) = (measure cs).1 :=
  Int.toNat_of_nonneg (measure_nonneg cs)

end Owed

section Parted

def Parts (ch : Char) : Prop := ∀ c, add ch c = (1, .plain)

theorem parts_of_plain {ch : Char} (low : ch.toNat ≤ 0xA0)
    (plain : ch.toNat ≠ 0x0A ∧ ch.toNat ≠ 0x0D ∧ emojiVariation.mem ch.toNat = false) : Parts ch := by
  intro c
  obtain ⟨feed, carriage, picture⟩ := plain
  have alone : ∀ d, addPlain ch.toNat d = (1, .plain) := by
    intro d
    rw [addPlain, if_neg feed, if_neg (by simp [carriage]), if_pos low]
  rw [add]
  simp only [picture, alone]
  split <;> rfl

theorem space_parts : Parts ' ' := parts_of_plain (by decide) (by decide)

theorem bar_parts : Parts '|' := parts_of_plain (by decide) (by decide)

theorem dash_parts : Parts '-' := parts_of_plain (by decide) (by decide)

theorem plus_parts : Parts '+' := parts_of_plain (by decide) (by decide)

variable {ch : Char}

theorem measure_parted (parts : Parts ch) (cs : List Char) : measure (ch :: cs) = ((measure cs).1 + 1, .plain) := by
  rw [measure_cons, parts]

theorem measure_append (front back : List Char) (apart : (measure back).2 = .plain) :
    measure (front ++ back) = ((measure back).1 + (measure front).1, (measure front).2) := by
  induction front with
  | nil => exact Prod.ext (Int.add_zero _).symm apart
  | cons c front ih => rw [List.cons_append, measure_cons, ih, measure_cons, Int.add_assoc]

theorem of_text_parted (parts : Parts ch) (front back : List Char) :
    ofText (front ++ ch :: back) = ofText front + 1 + ofText back := by
  have split := measure_append front (ch :: back) (congrArg Prod.snd (measure_parted parts back))
  have whole := of_text_measure (front ++ ch :: back)
  have frontal := of_text_measure front
  have rest := of_text_measure back
  rw [split, measure_parted parts] at whole
  simp only at whole
  omega

theorem of_text_led (parts : Parts ch) (cs : List Char) : ofText (ch :: cs) = 1 + ofText cs := by
  have parted := of_text_parted parts [] cs
  rwa [List.nil_append, show ofText [] = 0 from rfl, Nat.zero_add] at parted

theorem of_text_replicate (parts : Parts ch) (n : Nat) : ofText (List.replicate n ch) = n := by
  induction n with
  | zero => rfl
  | succ n ih => rw [List.replicate_succ, of_text_led parts, ih, Nat.add_comm]

end Parted

section Printable

abbrev Printable (ch : Char) : Prop := 0x20 ≤ ch.toNat ∧ ch.toNat < 0x7F

theorem printable_measure (cs : List Char) (printable : ∀ ch ∈ cs, Printable ch) : measure cs = ((cs.length : Int), Context.plain) := by
  induction cs with
  | nil => rfl
  | cons ch cs ih =>
    rw [List.forall_mem_cons] at printable
    obtain ⟨low, high⟩ := printable.1
    have added : add ch .plain = (1, .plain) := by
      rw [add, if_neg (by decide), addPlain, if_neg (by omega), if_neg (by simp [Context.plain, Context.ofStart]),
        if_pos (by omega)]
    rw [measure_cons, ih printable.2, added, List.length_cons]
    rfl

theorem of_text_printable (cs : List Char) (printable : ∀ ch ∈ cs, Printable ch) : ofText cs = cs.length := by
  rw [ofText, printable_measure cs printable]
  rfl

end Printable

end TablePeek.Width
