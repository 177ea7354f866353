import TablePeek.Json.Failure

set_option autoImplicit false

namespace TablePeek.Json

def hexValue? (c : Char) : Option Nat :=
  if '0' ≤ c ∧ c ≤ '9' then some (c.toNat - '0'.toNat)
  else if 'a' ≤ c ∧ c ≤ 'f' then some (c.toNat - 'a'.toNat + 10)
  else if 'A' ≤ c ∧ c ≤ 'F' then some (c.toNat - 'A'.toNat + 10)
  else none

def hexNumber? (cs : List Char) : Option Nat :=
  cs.foldl (fun n c => n.bind fun n => (hexValue? c).map (16 * n + ·)) (some 0)

def Failure.notHex (cs : List Char) : Failure :=
  if size cs < 4 then ⟨.endInString, 0⟩ else ⟨.invalidEscape, size cs - 4⟩

def hex4 : List Char → Step Nat
  | a :: b :: c :: d :: rest =>
    match hexNumber? [a, b, c, d] with
    | some n => .ok (n, rest)
    | none => .error (.notHex (a :: b :: c :: d :: rest))
  | cs => .error (.notHex cs)

def lowHalf (high : Nat) : List Char → Step Char
  | '\\' :: 'u' :: cs =>
    match hex4 cs with
    | .error f => .error f
    | .ok (low, rest) =>
      if 0xDC00 ≤ low ∧ low ≤ 0xDFFF then
        .ok (Char.ofNat (0x10000 + (high - 0xD800) * 0x400 + (low - 0xDC00)), rest)
      else .error (.before .loneSurrogate rest)
  | ['\\'] => .error (.before .endInString [])
  | '\\' :: cs => .error (.atNext .unfinishedSurrogate cs)
  | [] => .error (.before .endInString [])
  | cs => .error (.atNext .unfinishedSurrogate cs)

def numbered (cs : List Char) : Step Char :=
  match hex4 cs with
  | .error f => .error f
  | .ok (n, rest) =>
    if 0xDC00 ≤ n ∧ n ≤ 0xDFFF then .error (.before .loneSurrogate rest)
    else if 0xD800 ≤ n ∧ n ≤ 0xDBFF then lowHalf n rest
    else .ok (Char.ofNat n, rest)

def escape : List Char → Step Char
  | '"' :: rest => .ok ('"', rest)
  | '\\' :: rest => .ok ('\\', rest)
  | '/' :: rest => .ok ('/', rest)
  | 'b' :: rest => .ok ('\x08', rest)
  | 'f' :: rest => .ok ('\x0c', rest)
  | 'n' :: rest => .ok ('\n', rest)
  | 'r' :: rest => .ok ('\r', rest)
  | 't' :: rest => .ok ('\t', rest)
  | 'u' :: rest => numbered rest
  | [] => .error (.before .endInString [])
  | cs => .error (.atNext .invalidEscape cs)

theorem hex4_length {cs rest : List Char} {n : Nat} (h : hex4 cs = .ok (n, rest)) :
    rest.length < cs.length := by
  unfold hex4 at h
  split at h
  · split at h
    · cases h
      simp only [List.length_cons]
      omega
    · cases h
  · cases h

theorem low_half_length {high : Nat} {cs rest : List Char} {c : Char}
    (h : lowHalf high cs = .ok (c, rest)) : rest.length < cs.length := by
  unfold lowHalf at h
  split at h
  · split at h
    · cases h
    · rename_i low left hx
      have := hex4_length hx
      split at h
      · simp only [Except.ok.injEq, Prod.mk.injEq] at h
        simp only [← h.2, List.length_cons]
        omega
      · cases h
  all_goals cases h

theorem numbered_length {cs rest : List Char} {c : Char} (h : numbered cs = .ok (c, rest)) :
    rest.length < cs.length := by
  rw [numbered] at h
  split at h
  · cases h
  · rename_i n left hx
    have := hex4_length hx
    split at h
    · cases h
    · split at h
      · have := low_half_length h
        omega
      · cases h
        exact this

theorem escape_length {cs rest : List Char} {c : Char} (h : escape cs = .ok (c, rest)) :
    rest.length < cs.length := by
  unfold escape at h
  split at h
  case h_9 =>
    have := numbered_length h
    simp only [List.length_cons]
    omega
  all_goals first
    | (cases h; simp only [List.length_cons]; omega)
    | cases h

def stringFrom (read : List Char) : List Char → Step String
  | [] => .error (.before .endInString [])
  | '"' :: rest => .ok (String.ofList read.reverse, rest)
  | '\\' :: cs =>
    match _h : escape cs with
    | .error f => .error f
    | .ok (c, rest) => stringFrom (c :: read) rest
  | c :: rest =>
    if c.toNat < 0x20 then .error (.atNext .controlCharacter (c :: rest))
    else stringFrom (c :: read) rest
termination_by cs => cs.length
decreasing_by
  · have := escape_length _h
    simp only [List.length_cons]
    omega
  · simp

def string (cs : List Char) : Step String := stringFrom [] cs

theorem string_from_length {read cs rest : List Char} {s : String}
    (h : stringFrom read cs = .ok (s, rest)) : rest.length < cs.length := by
  fun_induction stringFrom read cs with
  | case1 => cases h
  | case2 => cases h; simp
  | case3 => cases h
  | case4 read cs c left hx ih =>
    have := ih h
    have := escape_length hx
    simp only [List.length_cons]
    omega
  | case5 => cases h
  | case6 read c left _ _ _ ih =>
    have := ih h
    simp only [List.length_cons]
    omega

theorem string_length {cs rest : List Char} {s : String} (h : string cs = .ok (s, rest)) :
    rest.length < cs.length := string_from_length h

end TablePeek.Json
