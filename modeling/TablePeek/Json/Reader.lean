import TablePeek.Json.Numbers
import TablePeek.Json.Strings

set_option autoImplicit false

namespace TablePeek.Json

def isSpace (c : Char) : Bool := c = ' ' || c = '\n' || c = '\t' || c = '\r'

def skipSpace (cs : List Char) : List Char := cs.dropWhile isSpace

theorem skip_space_length (cs : List Char) : (skipSpace cs).length ≤ cs.length :=
  drop_while_length isSpace cs

def word (v : Value) : List Char → List Char → Step Value
  | [], rest => .ok (v, rest)
  | _ :: _, [] => .error (.before .endInValue [])
  | w :: ws, c :: rest =>
    if c = w then word v ws rest else .error (.atNext .expectedWord (c :: rest))

def colon (cs : List Char) : Step Unit :=
  match skipSpace cs with
  | [] => .error (.before .endInObject [])
  | ':' :: rest => .ok ((), rest)
  | cs => .error (.atNext .expectedColon cs)

def key (cs : List Char) : Step String :=
  match skipSpace cs with
  | [] => .error (.before .endInValue [])
  | '"' :: rest =>
    match string rest with
    | .error f => .error f
    | .ok (k, rest) => (colon rest).map fun p => (k, p.2)
  | cs => .error (.atNext .keyNotString cs)

-- Whatever a reader reads takes room in the text.
structure Reader where
  read : List Char → Step Value
  shrinks : ∀ {cs rest : List Char} {v : Value}, read cs = .ok (v, rest) → rest.length < cs.length

theorem word_length {v w : Value} {ws cs rest : List Char} (h : word v ws cs = .ok (w, rest)) :
    rest.length ≤ cs.length := by
  induction ws generalizing cs with
  | nil =>
    simp only [word, Except.ok.injEq, Prod.mk.injEq] at h
    simp [h.2]
  | cons c ws ih =>
    cases cs with
    | nil => cases h
    | cons d cs =>
      simp only [word] at h
      split at h
      · exact Nat.le_succ_of_le (ih h)
      · cases h

theorem colon_length {cs rest : List Char} {u : Unit} (h : colon cs = .ok (u, rest)) :
    rest.length < cs.length := by
  have hs := skip_space_length cs
  rw [colon] at h
  split at h
  · cases h
  · rename_i hx
    cases h
    rw [hx] at hs
    exact hs
  · cases h

theorem key_length {cs rest : List Char} {k : String} (h : key cs = .ok (k, rest)) :
    rest.length < cs.length := by
  have hs := skip_space_length cs
  rw [key] at h
  split at h
  · cases h
  · rename_i left hx
    rw [hx, List.length_cons] at hs
    split at h
    · cases h
    · rename_i k behind hk
      have := string_length hk
      cases hc : colon behind with
      | error f => simp [hc, Except.map] at h
      | ok p =>
        have := @colon_length behind p.2 p.1 hc
        simp only [hc, Except.map, Except.ok.injEq, Prod.mk.injEq] at h
        rw [← h.2]
        omega
  · cases h

namespace Reader

def items (r : Reader) (found : List Value) (cs : List Char) : Step Value :=
  match _h : r.read cs with
  | .error f => .error f
  | .ok (v, left) =>
    match _hs : skipSpace left with
    | [] => .error (.before .endInList [])
    | ']' :: rest => .ok (.array (v :: found).reverse, rest)
    | ',' :: rest =>
      match skipSpace rest with
      | ']' :: rest => .error (.atNext .trailingComma (']' :: rest))
      | _ => r.items (v :: found) rest
    | cs => .error (.atNext .expectedCommaInList cs)
termination_by cs.length
decreasing_by
  have := r.shrinks _h
  have := skip_space_length left
  rw [_hs] at this
  simp only [List.length_cons] at this
  omega

def members (r : Reader) (found : List (String × Value)) (cs : List Char) : Step Value :=
  match _hk : key cs with
  | .error f => .error f
  | .ok (k, behind) =>
    match _h : r.read behind with
    | .error f => .error f
    | .ok (v, left) =>
      match _hs : skipSpace left with
      | [] => .error (.before .endInObject [])
      | '\x7d' :: rest => .ok (.object (assign k v found), rest)
      | ',' :: rest =>
        match skipSpace rest with
        | '\x7d' :: rest => .error (.atNext .trailingComma ('\x7d' :: rest))
        | _ => r.members (assign k v found) rest
      | cs => .error (.atNext .expectedCommaInObject cs)
termination_by cs.length
decreasing_by
  have := key_length _hk
  have := r.shrinks _h
  have := skip_space_length left
  rw [_hs] at this
  simp only [List.length_cons] at this
  omega

def list (r : Reader) (cs : List Char) : Step Value :=
  match skipSpace cs with
  | [] => .error (.before .endInList [])
  | ']' :: rest => .ok (.array [], rest)
  | cs => r.items [] cs

def object (r : Reader) (cs : List Char) : Step Value :=
  match skipSpace cs with
  | [] => .error (.before .endInObject [])
  | '\x7d' :: rest => .ok (.object [], rest)
  | cs => r.members [] cs

theorem items_length (r : Reader) {found : List Value} {cs rest : List Char} {v : Value}
    (h : r.items found cs = .ok (v, rest)) : rest.length < cs.length := by
  fun_induction items r found cs with
  | case1 => cases h
  | case2 => cases h
  | case3 found cs v left hr rest hs =>
    cases h
    have := r.shrinks hr
    have hl := skip_space_length left
    rw [hs, List.length_cons] at hl
    omega
  | case4 => cases h
  | case5 found cs v left hr rest hs _ ih =>
    have := ih h
    have := r.shrinks hr
    have hl := skip_space_length left
    rw [hs, List.length_cons] at hl
    omega
  | case6 => cases h

theorem members_length (r : Reader) {found : List (String × Value)} {cs rest : List Char} {v : Value}
    (h : r.members found cs = .ok (v, rest)) : rest.length < cs.length := by
  fun_induction members r found cs with
  | case1 => cases h
  | case2 => cases h
  | case3 => cases h
  | case4 found cs k behind hk v left hr rest hs =>
    cases h
    have := key_length hk
    have := r.shrinks hr
    have hl := skip_space_length left
    rw [hs, List.length_cons] at hl
    omega
  | case5 => cases h
  | case6 found cs k behind hk v left hr rest hs _ ih =>
    have := ih h
    have := key_length hk
    have := r.shrinks hr
    have hl := skip_space_length left
    rw [hs, List.length_cons] at hl
    omega
  | case7 => cases h

theorem list_length (r : Reader) {cs rest : List Char} {v : Value} (h : r.list cs = .ok (v, rest)) :
    rest.length ≤ cs.length := by
  have hl := skip_space_length cs
  rw [list] at h
  split at h
  · cases h
  · rename_i hs
    cases h
    rw [hs, List.length_cons] at hl
    omega
  · have := r.items_length h
    omega

theorem object_length (r : Reader) {cs rest : List Char} {v : Value}
    (h : r.object cs = .ok (v, rest)) : rest.length ≤ cs.length := by
  have hl := skip_space_length cs
  rw [object] at h
  split at h
  · cases h
  · rename_i hs
    cases h
    rw [hs, List.length_cons] at hl
    omega
  · have := r.members_length h
    omega

end Reader

def readValue (deeper : Option Reader) (cs : List Char) : Step Value :=
  match skipSpace cs with
  | [] => .error (.before .endInValue [])
  | 'n' :: rest => word .null ['u', 'l', 'l'] rest
  | 't' :: rest => word (.bool true) ['r', 'u', 'e'] rest
  | 'f' :: rest => word (.bool false) ['a', 'l', 's', 'e'] rest
  | '-' :: rest => number true rest
  | '"' :: rest => (string rest).map fun p => (.string p.1, p.2)
  | '[' :: rest =>
    match deeper with
    | none => .error (.atNext .tooDeep ('[' :: rest))
    | some r => r.list rest
  | '\x7b' :: rest =>
    match deeper with
    | none => .error (.atNext .tooDeep ('\x7b' :: rest))
    | some r => r.object rest
  | c :: rest =>
    if c.isDigit then number false (c :: rest) else .error (.atNext .expectedValue (c :: rest))

theorem read_value_length {deeper : Option Reader} {cs rest : List Char} {v : Value}
    (h : readValue deeper cs = .ok (v, rest)) : rest.length < cs.length := by
  have hl := skip_space_length cs
  rw [readValue] at h
  split at h <;> rename_i hs <;> try rw [hs, List.length_cons] at hl
  case h_1 => cases h
  case h_2 => have := word_length h; omega
  case h_3 => have := word_length h; omega
  case h_4 => have := word_length h; omega
  case h_5 => have := number_length h; omega
  case h_6 left =>
    cases hx : string left with
    | error f => simp [hx, Except.map] at h
    | ok p =>
      have := @string_length left p.2 p.1 hx
      simp only [hx, Except.map, Except.ok.injEq, Prod.mk.injEq] at h
      rw [← h.2]
      omega
  case h_7 =>
    split at h
    · cases h
    · have := Reader.list_length _ h; omega
  case h_8 =>
    split at h
    · cases h
    · have := Reader.object_length _ h; omega
  case h_9 =>
    split at h
    · have := number_length h
      simp only [List.length_cons] at this
      omega
    · cases h

def Reader.ofDepth : Nat → Reader
  | 0 => ⟨readValue none, read_value_length⟩
  | depth + 1 => ⟨readValue (some (.ofDepth depth)), read_value_length⟩

def maxDepth : Nat := 127

def read (text : List Char) : Except Error Value :=
  match (Reader.ofDepth maxDepth).read text with
  | .error f => .error (f.locate text)
  | .ok (v, rest) =>
    match skipSpace rest with
    | [] => .ok v
    | rest => .error (Failure.locate text (.atNext .trailingCharacters rest))

end TablePeek.Json
