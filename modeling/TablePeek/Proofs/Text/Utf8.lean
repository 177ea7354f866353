import TablePeek.Text.Utf8

set_option autoImplicit false

namespace TablePeek.Utf8

theorem char_range (c : Char) : c.toNat < 0xD800 ∨ 0xDFFF < c.toNat ∧ c.toNat < 0x110000 := c.valid

theorem byte_value {n : Nat} (small : n < 0x100) : (UInt8.ofNat n).toNat = n := UInt8.toNat_ofNat_of_lt' small

theorem tail_value (n : Nat) : (tail n).toNat = 0x80 + n % 0x40 := by
  rw [tail, UInt8.toNat_ofNat']
  omega

theorem following_tail (k low high bits n : Nat) (rest : Bytes) (fromLow : low ≤ 0x80 + n % 0x40)
    (toHigh : 0x80 + n % 0x40 ≤ high) :
    following? ⟨k + 1, low, high, bits⟩ (tail n :: rest) =
      following? ⟨k, 0x80, 0xBF, bits * 64 + n % 0x40⟩ rest := by
  rw [following?, tail_value, if_pos ⟨fromLow, toHigh⟩, Nat.add_sub_cancel_left]

theorem following_plain_tail (k bits n : Nat) (rest : Bytes) :
    following? ⟨k + 1, 0x80, 0xBF, bits⟩ (tail n :: rest) =
      following? ⟨k, 0x80, 0xBF, bits * 64 + n % 0x40⟩ rest :=
  following_tail k 0x80 0xBF bits n rest (by omega) (by omega)

theorem take_led (b : Nat) (lead : Lead) (c : Char) (after rest : Bytes) (small : b < 0x100) (high : 0x80 ≤ b)
    (led : lead? b = some lead) (followed : following? lead after = some (c.toNat, rest)) :
    takeChar? (UInt8.ofNat b :: after) = some (c, rest) := by
  simp only [takeChar?, byte_value small, if_neg (Nat.not_lt.mpr high), led, followed,
    Option.map_some, Char.ofNat_toNat]

-- Where the first byte leaves room for longer forms than needed, for surrogates or for numbers past
-- the last character, the range of the second byte is narrowed.
theorem lead_three (n : Nat) (below : n < 0x10000) :
    lead? (0xE0 + n / 0x1000) = some ⟨2, if n / 0x1000 = 0 then 0xA0 else 0x80,
      if n / 0x1000 = 13 then 0x9F else 0xBF, n / 0x1000⟩ := by
  rw [lead?]
  by_cases first : n / 0x1000 = 0
  · rw [first]; rfl
  by_cases surrogates : n / 0x1000 = 13
  · rw [surrogates]; rfl
  rw [if_neg (by omega), if_neg (by omega), if_neg (by omega), if_pos (by omega), if_neg first,
    if_neg surrogates, Nat.add_sub_cancel_left]

theorem lead_four (n : Nat) (below : n < 0x110000) :
    lead? (0xF0 + n / 0x40000) = some ⟨3, if n / 0x40000 = 0 then 0x90 else 0x80,
      if n / 0x40000 = 4 then 0x8F else 0xBF, n / 0x40000⟩ := by
  rw [lead?]
  by_cases first : n / 0x40000 = 0
  · rw [first]; rfl
  by_cases last : n / 0x40000 = 4
  · rw [last]; rfl
  rw [if_neg (by omega), if_neg (by omega), if_neg (by omega), if_neg (by omega), if_neg (by omega),
    if_pos (by omega), if_neg first, if_neg last, Nat.add_sub_cancel_left]

theorem take_encoded (c : Char) (rest : Bytes) : takeChar? (encodeChar c ++ rest) = some (c, rest) := by
  have range := char_range c
  unfold encodeChar
  simp only
  by_cases one : c.toNat < 0x80
  · have value : (UInt8.ofNat c.toNat).toNat = c.toNat := byte_value (by omega)
    rw [if_pos one, List.singleton_append, takeChar?, value, if_pos one, Char.ofNat_toNat]
  rw [if_neg one]
  by_cases two : c.toNat < 0x800
  · have led : lead? (0xC0 + c.toNat / 0x40) = some ⟨1, 0x80, 0xBF, c.toNat / 0x40⟩ := by
      rw [lead?, if_pos (by omega), Nat.add_sub_cancel_left]
    rw [if_pos two, List.cons_append, List.cons_append, List.nil_append]
    apply take_led _ _ c _ rest (by omega) (by omega) led
    rw [following_plain_tail, following?]
    congr 2
    omega
  rw [if_neg two]
  by_cases three : c.toNat < 0x10000
  · rw [if_pos three, List.cons_append, List.cons_append, List.cons_append, List.nil_append]
    apply take_led _ _ c _ rest (by omega) (by omega) (lead_three c.toNat three)
    rw [following_tail _ _ _ _ _ _ (by split <;> omega)
      (by split <;> omega), following_plain_tail, following?]
    congr 2
    omega
  · rw [if_neg three, List.cons_append, List.cons_append, List.cons_append, List.cons_append, List.nil_append]
    apply take_led _ _ c _ rest (by omega) (by omega) (lead_four c.toNat (by omega))
    rw [following_tail _ _ _ _ _ _ (by split <;> omega) (by split <;> omega), following_plain_tail,
      following_plain_tail, following?]
    congr 2
    omega

theorem decode_prefix_encode (cs : List Char) : decodePrefix (encode cs) = (cs, []) := by
  induction cs with
  | nil =>
    rw [decodePrefix.eq_def]
    rfl
  | cons c cs ih =>
    have first : takeChar? (encode (c :: cs)) = some (c, encode cs) := take_encoded c (encode cs)
    rw [decodePrefix.eq_def]
    split
    · rename_i none
      cases none.symm.trans first
    · rename_i some
      cases some.symm.trans first
      rw [ih]

theorem decode_encode (cs : List Char) : decode? (encode cs) = some cs := by
  rw [decode?, decode_prefix_encode]

theorem encode_injective {cs ds : List Char} (same : encode cs = encode ds) : cs = ds := by
  have decoded := decode_encode cs
  rw [same, decode_encode] at decoded
  exact (Option.some.inj decoded).symm

theorem encode_append (cs ds : List Char) : encode (cs ++ ds) = encode cs ++ encode ds :=
  List.flatMap_append

theorem encode_cons (c : Char) (cs : List Char) : encode (c :: cs) = encodeChar c ++ encode cs := rfl

theorem encode_ascii (c : Char) (ascii : c.toNat < 0x80) : encodeChar c = [UInt8.ofNat c.toNat] := if_pos ascii

theorem encoded_byte_high (c : Char) (wide : ¬ c.toNat < 0x80) (b : UInt8) (member : b ∈ encodeChar c) :
    0x80 ≤ b.toNat := by
  have range := char_range c
  have led : ∀ lead, 0x80 ≤ lead → lead < 0x100 → b = UInt8.ofNat lead → 0x80 ≤ b.toNat := by
    intro lead high small same
    rw [same, byte_value small]
    exact high
  have tailed : ∀ n, b = tail n → 0x80 ≤ b.toNat := by
    intro n same
    rw [same, tail_value]
    omega
  rw [encodeChar] at member
  simp only [if_neg wide] at member
  split at member
  · rcases List.mem_cons.mp member with first | later
    · exact led _ (by omega) (by omega) first
    · exact tailed _ (List.mem_singleton.mp later)
  · split at member
    · simp only [List.mem_cons, List.not_mem_nil, or_false] at member
      rcases member with first | second | third
      · exact led _ (by omega) (by omega) first
      · exact tailed _ second
      · exact tailed _ third
    · simp only [List.mem_cons, List.not_mem_nil, or_false] at member
      rcases member with first | second | third | fourth
      · exact led _ (by omega) (by omega) first
      · exact tailed _ second
      · exact tailed _ third
      · exact tailed _ fourth

theorem encoded_byte_other (c d : Char) (ascii : d.toNat < 0x80) (different : c ≠ d) :
    ∀ b ∈ encodeChar c, b ≠ UInt8.ofNat d.toNat := by
  intro b member same
  have value : b.toNat = d.toNat := by rw [same, byte_value (by omega)]
  by_cases narrow : c.toNat < 0x80
  · rw [encode_ascii c narrow] at member
    rw [List.mem_singleton.mp member, byte_value (by omega)] at value
    exact different (Char.toNat_inj.mp value)
  · have := encoded_byte_high c narrow b member
    omega

section Converse

variable {bs rest : Bytes} {c : Char} {n : Nat}

theorem char_of_nat_value (valid : n < 0xD800 ∨ 0xDFFF < n ∧ n < 0x110000) : (Char.ofNat n).toNat = n := by
  have is : n.isValidChar := valid
  rw [Char.ofNat, dif_pos is]
  rfl

theorem tail_of_byte {b : UInt8} (low : 0x80 ≤ b.toNat) (high : b.toNat ≤ 0xBF) (m : Nat)
    (bits : m % 0x40 = b.toNat - 0x80) : tail m = b := by
  apply UInt8.toNat_inj.mp
  rw [tail_value, bits]
  omega

theorem following_step {k low high bits : Nat} (read : following? ⟨k + 1, low, high, bits⟩ bs = some (n, rest)) :
    ∃ b after, bs = b :: after ∧ low ≤ b.toNat ∧ b.toNat ≤ high ∧
      following? ⟨k, 0x80, 0xBF, bits * 64 + (b.toNat - 0x80)⟩ after = some (n, rest) := by
  cases bs with
  | nil => simp [following?] at read
  | cons b after =>
    simp only [following?, Option.ite_none_right_eq_some] at read
    exact ⟨b, after, rfl, read.1.1, read.1.2, read.2⟩

theorem following_done {low high bits : Nat} (read : following? ⟨0, low, high, bits⟩ bs = some (n, rest)) :
    n = bits ∧ rest = bs := by
  simp only [following?, Option.some.injEq, Prod.mk.injEq] at read
  exact ⟨read.1.symm, read.2.symm⟩

theorem lead_cases {b : Nat} {lead : Lead} (led : lead? b = some lead) :
    (lead = ⟨1, 0x80, 0xBF, b - 0xC0⟩ ∧ 0xC2 ≤ b ∧ b ≤ 0xDF) ∨
    (∃ low high, lead = ⟨2, low, high, b - 0xE0⟩ ∧ 0xE0 ≤ b ∧ b ≤ 0xEF ∧ 0x80 ≤ low ∧ high ≤ 0xBF ∧
      (b = 0xE0 → 0xA0 ≤ low) ∧ (b = 0xED → high ≤ 0x9F)) ∨
    ∃ low high, lead = ⟨3, low, high, b - 0xF0⟩ ∧ 0xF0 ≤ b ∧ b ≤ 0xF4 ∧ 0x80 ≤ low ∧ high ≤ 0xBF ∧
      (b = 0xF0 → 0x90 ≤ low) ∧ (b = 0xF4 → high ≤ 0x8F) := by
  rw [lead?] at led
  split at led
  · rename_i range
    cases led
    exact .inl ⟨rfl, range⟩
  · split at led
    · cases led
      subst_vars
      exact .inr (.inl ⟨_, _, rfl, by omega⟩)
    · split at led
      · cases led
        subst_vars
        exact .inr (.inl ⟨_, _, rfl, by omega⟩)
      · split at led
        · cases led
          exact .inr (.inl ⟨_, _, rfl, by omega⟩)
        · split at led
          · cases led
            subst_vars
            exact .inr (.inr ⟨_, _, rfl, by omega⟩)
          · split at led
            · cases led
              exact .inr (.inr ⟨_, _, rfl, by omega⟩)
            · split at led
              · cases led
                subst_vars
                exact .inr (.inr ⟨_, _, rfl, by omega⟩)
              · cases led

theorem byte_of_nat {b : UInt8} (m : Nat) (same : m = b.toNat) : UInt8.ofNat m = b := by
  rw [same, UInt8.ofNat_toNat]

theorem encode_two {b d : UInt8} (first : 0xC2 ≤ b.toNat ∧ b.toNat ≤ 0xDF) (second : 0x80 ≤ d.toNat ∧ d.toNat ≤ 0xBF)
    (number : n = (b.toNat - 0xC0) * 64 + (d.toNat - 0x80)) : encodeChar (Char.ofNat n) = [b, d] := by
  have value : (Char.ofNat n).toNat = n := char_of_nat_value (by omega)
  rw [encodeChar]
  simp only [value]
  rw [if_neg (by omega), if_pos (by omega), byte_of_nat (b := b) _ (by omega),
    tail_of_byte second.1 second.2 _ (by omega)]

theorem encode_three {b d e : UInt8} (first : 0xE0 ≤ b.toNat ∧ b.toNat ≤ 0xEF)
    (second : 0x80 ≤ d.toNat ∧ d.toNat ≤ 0xBF) (third : 0x80 ≤ e.toNat ∧ e.toNat ≤ 0xBF)
    (long : b.toNat = 0xE0 → 0xA0 ≤ d.toNat) (surrogate : b.toNat = 0xED → d.toNat ≤ 0x9F)
    (number : n = ((b.toNat - 0xE0) * 64 + (d.toNat - 0x80)) * 64 + (e.toNat - 0x80)) :
    encodeChar (Char.ofNat n) = [b, d, e] := by
  have value : (Char.ofNat n).toNat = n := char_of_nat_value (by omega)
  rw [encodeChar]
  simp only [value]
  rw [if_neg (by omega), if_neg (by omega), if_pos (by omega), byte_of_nat (b := b) _ (by omega),
    tail_of_byte second.1 second.2 _ (by omega), tail_of_byte third.1 third.2 _ (by omega)]

theorem encode_four {b d e f : UInt8} (first : 0xF0 ≤ b.toNat ∧ b.toNat ≤ 0xF4)
    (second : 0x80 ≤ d.toNat ∧ d.toNat ≤ 0xBF) (third : 0x80 ≤ e.toNat ∧ e.toNat ≤ 0xBF)
    (fourth : 0x80 ≤ f.toNat ∧ f.toNat ≤ 0xBF) (long : b.toNat = 0xF0 → 0x90 ≤ d.toNat)
    (past : b.toNat = 0xF4 → d.toNat ≤ 0x8F)
    (number : n = (((b.toNat - 0xF0) * 64 + (d.toNat - 0x80)) * 64 + (e.toNat - 0x80)) * 64 + (f.toNat - 0x80)) :
    encodeChar (Char.ofNat n) = [b, d, e, f] := by
  have value : (Char.ofNat n).toNat = n := char_of_nat_value (by omega)
  rw [encodeChar]
  simp only [value]
  rw [if_neg (by omega), if_neg (by omega), if_neg (by omega), byte_of_nat (b := b) _ (by omega),
    tail_of_byte second.1 second.2 _ (by omega), tail_of_byte third.1 third.2 _ (by omega),
    tail_of_byte fourth.1 fourth.2 _ (by omega)]

theorem take_char_encoded (taken : takeChar? bs = some (c, rest)) : bs = encodeChar c ++ rest := by
  cases bs with
  | nil => cases taken
  | cons b bs =>
    simp only [takeChar?] at taken
    split at taken
    · rename_i ascii
      cases taken
      have value : (Char.ofNat b.toNat).toNat = b.toNat := char_of_nat_value (.inl (by omega))
      rw [encode_ascii _ (by rwa [value]), byte_of_nat _ value]
      rfl
    · split at taken
      · cases taken
      · rename_i lead led
        obtain ⟨⟨n, left⟩, read, same⟩ := Option.map_eq_some_iff.mp taken
        cases same
        rcases lead_cases led with ⟨rfl, first⟩ | ⟨low, high, rfl, range⟩ | ⟨low, high, rfl, range⟩
        · obtain ⟨d, bs, rfl, lowest, highest, done⟩ := following_step read
          obtain ⟨number, left⟩ := following_done done
          rw [encode_two first ⟨lowest, highest⟩ number, left]
          rfl
        · obtain ⟨d, bs, rfl, lowest, highest, more⟩ := following_step read
          obtain ⟨e, bs, rfl, third, third', done⟩ := following_step more
          obtain ⟨number, left⟩ := following_done done
          rw [encode_three (by omega) (by omega) ⟨third, third'⟩ (by omega) (by omega) number, left]
          rfl
        · obtain ⟨d, bs, rfl, lowest, highest, more⟩ := following_step read
          obtain ⟨e, bs, rfl, third, third', most⟩ := following_step more
          obtain ⟨f, bs, rfl, fourth, fourth', done⟩ := following_step most
          obtain ⟨number, left⟩ := following_done done
          rw [encode_four (by omega) (by omega) ⟨third, third'⟩ ⟨fourth, fourth'⟩ (by omega) (by omega) number, left]
          rfl

theorem decode_prefix_encoded (bs : Bytes) : bs = encode (decodePrefix bs).1 ++ (decodePrefix bs).2 := by
  fun_induction decodePrefix bs with
  | case1 => rfl
  | case2 bs c rest taken cs left eq ih =>
    rw [eq] at ih
    rw [take_char_encoded taken, encode_cons, List.append_assoc, ← ih]

theorem decode_some_iff (bs : Bytes) (cs : List Char) : decode? bs = some cs ↔ encode cs = bs := by
  constructor
  · intro decoded
    have whole := decode_prefix_encoded bs
    rw [decode?] at decoded
    split at decoded
    · rename_i ds same
      rw [same, List.append_nil] at whole
      rw [whole, Option.some.inj decoded]
    · cases decoded
  · rintro rfl
    exact decode_encode cs

end Converse

end TablePeek.Utf8
