import TablePeek.Json.Failure
import TablePeek.Json.Value
import TablePeek.Number.Scaled

set_option autoImplicit false

namespace TablePeek.Json

def gatheredFloat (negative : Bool) (g : Gathered) (e : Int) (rest : List Char) : Step Value :=
  match g.toBinary64? negative e with
  | some x => .ok (.float x, rest)
  | none => .error (.before .numberOutOfRange rest)

-- Past 31 bits there is no number, only the text behind the digit that went too far.
def exponentDigits (n : Nat) : List Char → Option Nat × List Char
  | [] => (some n, [])
  | c :: rest =>
    if c.isDigit then
      if 10 * n + Digits.value c < 0x80000000 then exponentDigits (10 * n + Digits.value c) rest
      else (none, rest)
    else (some n, c :: rest)

def withExponent (negative : Bool) (g : Gathered) (cs : List Char) : Step Value :=
  let (down, ds) := Digits.splitSign cs
  match ds with
  | [] => .error (.before .endInValue [])
  | c :: _ =>
    if c.isDigit then
      match exponentDigits 0 ds with
      | (some n, rest) => gatheredFloat negative g (if down then -(n : Int) else n) rest
      | (none, rest) =>
        if g.significand ≠ 0 ∧ !down then .error (.before .numberOutOfRange rest)
        else .ok (.float (.zero negative), rest.dropWhile Char.isDigit)
    else .error (.atNext .invalidNumber ds)

def scaledNumber (negative : Bool) (g : Gathered) : List Char → Step Value
  | 'e' :: rest => withExponent negative g rest
  | 'E' :: rest => withExponent negative g rest
  | rest => gatheredFloat negative g 0 rest

-- Zero with a minus is not whole: only a float keeps the sign.
def whole? (negative : Bool) (n : Nat) : Option Int :=
  if negative then if 0 < n ∧ n ≤ 0x8000000000000000 then some (-n) else none
  else if n < 0x10000000000000000 then some n else none

def wholeNumber (negative : Bool) (ds rest : List Char) : Step Value :=
  match whole? negative (Digits.toNat ds) with
  | some i => .ok (.integer i, rest)
  | none => gatheredFloat negative (.ofDigits ds []) 0 rest

def afterWhole (negative : Bool) (whole : List Char) : List Char → Step Value
  | '.' :: cs =>
    let ds := cs.takeWhile Char.isDigit
    let rest := cs.dropWhile Char.isDigit
    if ds.isEmpty then
      .error (.atNext (if rest.isEmpty then .endInValue else .invalidNumber) rest)
    else scaledNumber negative (.ofDigits whole ds) rest
  | 'e' :: rest => withExponent negative (.ofDigits whole []) rest
  | 'E' :: rest => withExponent negative (.ofDigits whole []) rest
  | rest => wholeNumber negative whole rest

def number (negative : Bool) (cs : List Char) : Step Value :=
  let whole := cs.takeWhile Char.isDigit
  let rest := cs.dropWhile Char.isDigit
  match whole with
  | [] => .error (.atNext (if cs.isEmpty then .endInValue else .invalidNumber) cs)
  | '0' :: _ :: _ => .error (.atNext .invalidNumber (cs.drop 1))
  | _ => afterWhole negative whole rest

theorem drop_while_length (p : Char → Bool) (cs : List Char) :
    (cs.dropWhile p).length ≤ cs.length := (List.dropWhile_sublist p).length_le

theorem split_sign_length (cs : List Char) : (Digits.splitSign cs).2.length ≤ cs.length := by
  unfold Digits.splitSign
  split <;> simp

theorem exponent_digits_length (n : Nat) (cs : List Char) :
    (exponentDigits n cs).2.length ≤ cs.length := by
  induction cs generalizing n with
  | nil => simp [exponentDigits]
  | cons c rest ih =>
    simp only [exponentDigits]
    split
    · split
      · exact Nat.le_succ_of_le (ih _)
      · simp
    · simp

theorem gathered_float_length {negative : Bool} {g : Gathered} {e : Int} {cs rest : List Char}
    {v : Value} (h : gatheredFloat negative g e cs = .ok (v, rest)) :
    rest.length ≤ cs.length := by
  unfold gatheredFloat at h
  generalize g.toBinary64? negative e = x at h
  cases x <;> cases h
  exact Nat.le_refl _

theorem with_exponent_length {negative : Bool} {g : Gathered} {cs rest : List Char} {v : Value}
    (h : withExponent negative g cs = .ok (v, rest)) : rest.length ≤ cs.length := by
  rw [withExponent] at h
  have hs := split_sign_length cs
  simp only at h
  split at h
  · cases h
  · rename_i c tail hc
    split at h
    · have hd := exponent_digits_length 0 (Digits.splitSign cs).2
      split at h
      · rename_i n left hx
        have := gathered_float_length h
        rw [hx] at hd
        simp only at hd
        omega
      · rename_i left hx
        rw [hx] at hd
        simp only at hd
        split at h
        · cases h
        · cases h
          have := drop_while_length Char.isDigit left
          omega
    · cases h

theorem scaled_number_length {negative : Bool} {g : Gathered} {cs rest : List Char} {v : Value}
    (h : scaledNumber negative g cs = .ok (v, rest)) : rest.length ≤ cs.length := by
  unfold scaledNumber at h
  split at h
  · exact Nat.le_succ_of_le (with_exponent_length h)
  · exact Nat.le_succ_of_le (with_exponent_length h)
  · exact gathered_float_length h

theorem whole_number_length {negative : Bool} {ds cs rest : List Char} {v : Value}
    (h : wholeNumber negative ds cs = .ok (v, rest)) : rest.length ≤ cs.length := by
  rw [wholeNumber] at h
  split at h
  · cases h
    exact Nat.le_refl _
  · exact gathered_float_length h

theorem after_whole_length {negative : Bool} {whole cs rest : List Char} {v : Value}
    (h : afterWhole negative whole cs = .ok (v, rest)) : rest.length ≤ cs.length := by
  unfold afterWhole at h
  split at h
  · rename_i cs
    simp only at h
    split at h
    · cases h
    · have := scaled_number_length h
      have := drop_while_length Char.isDigit cs
      simp only [List.length_cons]
      omega
  · exact Nat.le_succ_of_le (with_exponent_length h)
  · exact Nat.le_succ_of_le (with_exponent_length h)
  · exact whole_number_length h

theorem number_length {negative : Bool} {cs rest : List Char} {v : Value}
    (h : number negative cs = .ok (v, rest)) : rest.length < cs.length := by
  have hl : (cs.takeWhile Char.isDigit).length + (cs.dropWhile Char.isDigit).length = cs.length := by
    rw [← List.length_append, List.takeWhile_append_dropWhile]
  unfold number at h
  simp only at h
  split at h
  · cases h
  · cases h
  · rename_i hne _
    have := after_whole_length h
    have := List.length_pos_iff.mpr hne
    omega

end TablePeek.Json
