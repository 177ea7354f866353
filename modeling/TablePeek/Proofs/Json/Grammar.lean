import Mathlib.Data.List.TakeWhile
import TablePeek.Proofs.Json.Literals

set_option autoImplicit false

namespace TablePeek.Json

def Value.IsNumber : Value → Prop
  | .integer _ => True
  | .float _ => True
  | _ => False

instance : DecidablePred Value.IsNumber
  | .integer _ => .isTrue trivial
  | .float _ => .isTrue trivial
  | .null => .isFalse id
  | .bool _ => .isFalse id
  | .string _ => .isFalse id
  | .array _ => .isFalse id
  | .object _ => .isFalse id

variable {negative : Bool} {g : Gathered} {cs rest : List Char} {v : Value}

theorem exponent_digits_rest (n : Nat) (ds : List Char) :
    (exponentDigits n ds).2.dropWhile Char.isDigit = ds.dropWhile Char.isDigit ∧
      ((exponentDigits n ds).1.isSome = true → (exponentDigits n ds).2 = ds.dropWhile Char.isDigit) := by
  induction ds generalizing n with
  | nil => exact ⟨rfl, fun _ => rfl⟩
  | cons c ds ih =>
    by_cases digit : c.isDigit = true
    · rw [exponentDigits, if_pos digit, List.dropWhile_cons_of_pos digit]
      split
      · exact ih _
      · exact ⟨rfl, fun none => by cases none⟩
    · rw [exponentDigits, if_neg digit, List.dropWhile_cons_of_neg digit]
      exact ⟨rfl, fun _ => rfl⟩

theorem gathered_float_rest {e : Int} (read : gatheredFloat negative g e cs = .ok (v, rest)) : rest = cs := by
  unfold gatheredFloat at read
  generalize g.toBinary64? negative e = found at read
  cases found <;> cases read
  rfl

theorem take_all_digits (c : Char) (ds : List Char) (digit : c.isDigit = true) :
    Digits.allDigits ((c :: ds).takeWhile Char.isDigit) = true := by
  refine (Digits.all_digits_iff _).mpr ⟨?_, List.all_eq_true.mp List.all_takeWhile⟩
  rw [List.takeWhile_cons_of_pos digit]
  exact List.cons_ne_nil _ _

theorem with_exponent_text (capital : Bool) (read : withExponent negative g cs = .ok (v, rest)) :
    ∃ p : Power, p.capital = capital ∧ cs = Power.signText p.sign ++ p.digits ++ rest := by
  obtain ⟨sign, ds, written, parts⟩ := Power.sign_in_front cs
  rw [withExponent, parts] at read
  simp only at read
  cases ds with
  | nil => cases read
  | cons c tail =>
    by_cases digit : c.isDigit = true
    · simp only [digit, if_true] at read
      have behind := exponent_digits_rest 0 (c :: tail)
      have left : rest = (c :: tail).dropWhile Char.isDigit := by
        cases exponent : exponentDigits 0 (c :: tail) with
        | mk n left =>
          rw [exponent] at read behind
          cases n with
          | some n => exact (gathered_float_rest read).trans (behind.2 rfl)
          | none =>
            simp only at read
            split at read
            · cases read
            · cases read
              exact behind.1
      refine ⟨⟨capital, sign, (c :: tail).takeWhile Char.isDigit, take_all_digits c tail digit⟩, rfl, ?_⟩
      rw [written, left, List.append_assoc, List.takeWhile_append_dropWhile]
    · simp only [digit, Bool.false_eq_true, if_false] at read
      cases read

theorem scaled_number_text (read : scaledNumber negative g cs = .ok (v, rest)) :
    ∃ power : Option Power, cs = (power.map Power.toText).getD [] ++ rest := by
  unfold scaledNumber at read
  split at read
  · obtain ⟨p, small, written⟩ := with_exponent_text false read
    refine ⟨some p, ?_⟩
    simp only [Option.map_some, Option.getD_some, Power.toText, small, Bool.false_eq_true, if_false]
    rw [written, List.cons_append]
  · obtain ⟨p, large, written⟩ := with_exponent_text true read
    refine ⟨some p, ?_⟩
    simp only [Option.map_some, Option.getD_some, Power.toText, large, if_true]
    rw [written, List.cons_append]
  · exact ⟨none, (gathered_float_rest read).symm⟩

def EndsLiteral (cs rest : List Char) : Prop :=
  ∃ decimals : List Char, ∃ power : Option Power, (∀ c ∈ decimals, c.isDigit = true) ∧
    cs = (if decimals = [] then [] else '.' :: decimals) ++ (power.map Power.toText).getD [] ++ rest

theorem ends_without_decimals (power : Option Power) (written : cs = (power.map Power.toText).getD [] ++ rest) :
    EndsLiteral cs rest := ⟨[], power, fun _ none => absurd none List.not_mem_nil, written⟩

theorem after_whole_text {whole : List Char} (read : afterWhole negative whole cs = .ok (v, rest)) :
    EndsLiteral cs rest := by
  unfold afterWhole at read
  split at read
  · rename_i ds
    simp only at read
    split at read
    · cases read
    · rename_i some
      obtain ⟨power, written⟩ := scaled_number_text read
      rw [List.isEmpty_iff] at some
      refine ⟨ds.takeWhile Char.isDigit, power, List.all_eq_true.mp List.all_takeWhile, ?_⟩
      rw [if_neg some, List.append_assoc, ← written, List.cons_append, List.takeWhile_append_dropWhile]
  · rename_i ds
    change scaledNumber negative (.ofDigits whole []) ('e' :: ds) = .ok (v, rest) at read
    obtain ⟨power, written⟩ := scaled_number_text read
    exact ends_without_decimals power written
  · rename_i ds
    change scaledNumber negative (.ofDigits whole []) ('E' :: ds) = .ok (v, rest) at read
    obtain ⟨power, written⟩ := scaled_number_text read
    exact ends_without_decimals power written
  · apply ends_without_decimals none
    rw [wholeNumber] at read
    split at read
    · cases read
      rfl
    · exact (gathered_float_rest read).symm

theorem number_literal (read : number negative cs = .ok (v, rest)) :
    ∃ l : Literal, l.negative = negative ∧ cs = l.unsigned ++ rest := by
  have parts := List.takeWhile_append_dropWhile (p := Char.isDigit) (l := cs)
  have digits : ∀ c ∈ cs.takeWhile Char.isDigit, c.isDigit = true := List.all_eq_true.mp List.all_takeWhile
  unfold number at read
  simp only at read
  generalize cs.takeWhile Char.isDigit = whole at *
  split at read
  · cases read
  · cases read
  · rename_i nonempty leading
    obtain ⟨decimals, power, all, written⟩ := after_whole_text read
    have tight : Digits.Tight whole := by
      refine ⟨(Digits.all_digits_iff _).mpr ⟨nonempty, digits⟩, fun zero => ?_⟩
      cases whole with
      | nil => cases zero
      | cons c ds =>
        obtain rfl := Option.some.inj zero
        cases ds with
        | nil => rfl
        | cons d ds => exact absurd rfl (leading d ds)
    refine ⟨⟨negative, whole, decimals, power, tight, all⟩, rfl, ?_⟩
    rw [← parts, written, ← List.append_assoc]
    rfl

theorem items_value (r : Reader) (found : List Value) (read : r.items found cs = .ok (v, rest)) : ¬ v.IsNumber := by
  fun_induction Reader.items r found cs with
  | case1 => cases read
  | case2 => cases read
  | case3 =>
    cases read
    exact id
  | case4 => cases read
  | case5 found cs v left first rest stop goesOn ih => exact ih read
  | case6 => cases read

theorem members_value (r : Reader) (found : List (String × Value)) (read : r.members found cs = .ok (v, rest)) :
    ¬ v.IsNumber := by
  fun_induction Reader.members r found cs with
  | case1 => cases read
  | case2 => cases read
  | case3 => cases read
  | case4 =>
    cases read
    exact id
  | case5 => cases read
  | case6 found cs k behind named v left first rest stop goesOn ih => exact ih read
  | case7 => cases read

theorem list_value (r : Reader) (read : r.list cs = .ok (v, rest)) : ¬ v.IsNumber := by
  rw [Reader.list] at read
  split at read
  · cases read
  · cases read
    exact id
  · exact items_value r [] read

theorem object_value (r : Reader) (read : r.object cs = .ok (v, rest)) : ¬ v.IsNumber := by
  rw [Reader.object] at read
  split at read
  · cases read
  · cases read
    exact id
  · exact members_value r [] read

theorem read_value_text {deeper : Option Reader} (read : readValue deeper cs = .ok (v, rest)) (number : v.IsNumber) :
    ∃ l : Literal, skipSpace cs = l.toText ++ rest := by
  rw [readValue] at read
  split at read
  case h_1 => cases read
  case h_2 => exact absurd number (word_value read ▸ id)
  case h_3 => exact absurd number (word_value read ▸ id)
  case h_4 => exact absurd number (word_value read ▸ id)
  case h_5 digits same =>
    obtain ⟨l, minus, written⟩ := number_literal read
    refine ⟨l, ?_⟩
    rw [same, Literal.toText, minus, written]
    rfl
  case h_6 inside same =>
    cases contents : string inside with
    | error f =>
      rw [contents] at read
      cases read
    | ok p =>
      rw [contents] at read
      cases read
      exact number.elim
  case h_7 inside same =>
    split at read
    · cases read
    · exact absurd number (list_value _ read)
  case h_8 inside same =>
    split at read
    · cases read
    · exact absurd number (object_value _ read)
  case h_9 c digits _ _ _ _ _ _ _ same =>
    split at read
    · obtain ⟨l, plus, written⟩ := number_literal read
      refine ⟨l, ?_⟩
      rw [same, Literal.toText, plus, written]
      rfl
    · cases read

theorem accepted_of_number {text : List Char}
    (some : (Json.read text).toOption.any (fun v => decide v.IsNumber) = true) :
    ∃ v, Json.read text = .ok v ∧ v.IsNumber := by
  cases read : Json.read text with
  | error e =>
    rw [read] at some
    cases some
  | ok v =>
    rw [read] at some
    exact ⟨v, rfl, of_decide_eq_true some⟩

def Trimmed (text : List Char) : Prop := text.head?.any isSpace = false ∧ text.getLast?.any isSpace = false

instance (text : List Char) : Decidable (Trimmed text) := inferInstanceAs (Decidable (_ ∧ _))

theorem literal_of_accepted {text : List Char} (accepted : Json.read text = .ok v) (number : v.IsNumber)
    (trimmed : Trimmed text) : ∃ l : Literal, text = l.toText := by
  rw [Json.read] at accepted
  split at accepted
  · cases accepted
  · rename_i w rest read
    split at accepted
    · rename_i blank
      cases accepted
      have value : readValue (some (.ofDepth 126)) text = .ok (v, rest) := read
      obtain ⟨l, written⟩ := read_value_text value number
      have start : skipSpace text = text := by
        cases text with
        | nil => rfl
        | cons c text => exact skip_space_at c text trimmed.1
      rw [start] at written
      have none : rest = [] := by
        by_contra some
        obtain ⟨before, last, shape⟩ := (List.eq_nil_or_concat rest).resolve_left some
        have ended : isSpace last = false := by
          have back := trimmed.2
          rwa [written, shape, List.concat_eq_append, ← List.append_assoc, List.getLast?_concat, Option.any_some] at back
        have space : isSpace last = true := by
          apply List.dropWhile_eq_nil_iff.mp blank last
          rw [shape, List.concat_eq_append]
          exact List.mem_append_right _ (List.mem_singleton_self last)
        rw [ended] at space
        cases space
      exact ⟨l, by rw [written, none, List.append_nil]⟩
    · cases accepted

end TablePeek.Json
