set_option autoImplicit false

namespace TablePeek.Utf8

abbrev Bytes := List UInt8

def tail (n : Nat) : UInt8 := UInt8.ofNat (0x80 + n % 0x40)

def encodeChar (c : Char) : Bytes :=
  let n := c.toNat
  if n < 0x80 then [UInt8.ofNat n]
  else if n < 0x800 then [UInt8.ofNat (0xC0 + n / 0x40), tail n]
  else if n < 0x10000 then [UInt8.ofNat (0xE0 + n / 0x1000), tail (n / 0x40), tail n]
  else
    [UInt8.ofNat (0xF0 + n / 0x40000), tail (n / 0x1000), tail (n / 0x40), tail n]

def encode (cs : List Char) : Bytes := cs.flatMap encodeChar

def encodeString (s : String) : Bytes := encode s.toList

def size (c : Char) : Nat :=
  if c.toNat < 0x80 then 1 else if c.toNat < 0x800 then 2 else if c.toNat < 0x10000 then 3 else 4

structure Lead where
  following : Nat
  low : Nat
  high : Nat
  bits : Nat
deriving DecidableEq, Repr

-- The narrowed ranges shut out longer forms than needed, surrogates and numbers past the last character.
def lead? (b : Nat) : Option Lead :=
  if 0xC2 ≤ b ∧ b ≤ 0xDF then some ⟨1, 0x80, 0xBF, b - 0xC0⟩
  else if b = 0xE0 then some ⟨2, 0xA0, 0xBF, 0⟩
  else if b = 0xED then some ⟨2, 0x80, 0x9F, 0xD⟩
  else if 0xE1 ≤ b ∧ b ≤ 0xEF then some ⟨2, 0x80, 0xBF, b - 0xE0⟩
  else if b = 0xF0 then some ⟨3, 0x90, 0xBF, 0⟩
  else if 0xF1 ≤ b ∧ b ≤ 0xF3 then some ⟨3, 0x80, 0xBF, b - 0xF0⟩
  else if b = 0xF4 then some ⟨3, 0x80, 0x8F, 4⟩
  else none

def following? : Lead → Bytes → Option (Nat × Bytes)
  | ⟨0, _, _, bits⟩, rest => some (bits, rest)
  | ⟨_ + 1, _, _, _⟩, [] => none
  | ⟨k + 1, low, high, bits⟩, b :: rest =>
    if low ≤ b.toNat ∧ b.toNat ≤ high then
      following? ⟨k, 0x80, 0xBF, bits * 64 + (b.toNat - 0x80)⟩ rest
    else none

def takeChar? : Bytes → Option (Char × Bytes)
  | [] => none
  | b :: rest =>
    if b.toNat < 0x80 then some (Char.ofNat b.toNat, rest)
    else
      match lead? b.toNat with
      | none => none
      | some lead => (following? lead rest).map fun (n, left) => (Char.ofNat n, left)

theorem following_length : ∀ {bs left : Bytes} {lead : Lead} {n : Nat},
    following? lead bs = some (n, left) → left.length ≤ bs.length
  | bs, left, ⟨0, _, _, _⟩, n, h => by
    simp only [following?, Option.some.injEq, Prod.mk.injEq] at h
    simp [h.2]
  | [], left, ⟨_ + 1, _, _, _⟩, n, h => by simp [following?] at h
  | b :: bs, left, ⟨k + 1, low, high, bits⟩, n, h => by
    simp only [following?] at h
    split at h
    · exact Nat.le_succ_of_le (following_length h)
    · cases h

theorem take_char_length {bs rest : Bytes} {c : Char} (h : takeChar? bs = some (c, rest)) :
    rest.length < bs.length := by
  cases bs with
  | nil => simp [takeChar?] at h
  | cons b tail =>
    simp only [takeChar?] at h
    split at h
    · simp only [Option.some.injEq, Prod.mk.injEq] at h
      simp [h.2]
    · split at h
      · cases h
      · rename_i lead _
        cases hf : following? lead tail with
        | none => simp [hf] at h
        | some p =>
          have := @following_length tail p.2 lead p.1 hf
          simp only [hf, Option.map_some, Option.some.injEq, Prod.mk.injEq] at h
          rw [← h.2]
          exact Nat.lt_succ_of_le this

def decodePrefix (bs : Bytes) : List Char × Bytes :=
  match _h : takeChar? bs with
  | none => ([], bs)
  | some (c, rest) =>
    let (cs, left) := decodePrefix rest
    (c :: cs, left)
termination_by bs.length
decreasing_by exact take_char_length _h

def decode? (bs : Bytes) : Option (List Char) :=
  match decodePrefix bs with
  | (cs, []) => some cs
  | _ => none

def validLength (bs : Bytes) : Nat := bs.length - (decodePrefix bs).2.length

def brokenLength : Bytes → Nat
  | [] => 0
  | b :: rest =>
    match lead? b.toNat with
    | none => 1
    | some lead => 1 + fitting lead rest
where
  fitting : Lead → Bytes → Nat
    | ⟨k + 1, low, high, bits⟩, b :: rest =>
      if low ≤ b.toNat ∧ b.toNat ≤ high then 1 + fitting ⟨k, 0x80, 0xBF, bits⟩ rest else 0
    | _, _ => 0

theorem broken_length_pos {b : UInt8} {rest : Bytes} : 0 < brokenLength (b :: rest) := by
  simp only [brokenLength]
  split <;> omega

theorem decode_prefix_length (bs : Bytes) : (decodePrefix bs).2.length ≤ bs.length := by
  fun_induction decodePrefix bs with
  | case1 => exact Nat.le_refl _
  | case2 bs c rest h cs left eq ih =>
    rw [eq] at ih
    exact Nat.le_of_lt (Nat.lt_of_le_of_lt ih (take_char_length h))

def decodeLossy (bs : Bytes) : List Char :=
  match _h : decodePrefix bs with
  | (cs, []) => cs
  | (cs, b :: left) => cs ++ '\uFFFD' :: decodeLossy ((b :: left).drop (brokenLength (b :: left)))
termination_by bs.length
decreasing_by
  have hl := decode_prefix_length bs
  have hp := @broken_length_pos b left
  rw [_h] at hl
  simp only [List.length_drop, List.length_cons] at hl ⊢
  omega

def toStringLossy (bs : Bytes) : String := String.ofList (decodeLossy bs)

end TablePeek.Utf8
