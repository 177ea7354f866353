import TablePeek.Csv.Reader
import TablePeek.Proofs.Csv.Splitting
import TablePeek.Proofs.Text.Utf8

set_option autoImplicit false

namespace TablePeek.Csv

open Utf8 (Bytes encode encodeString)

def Special (c : Char) : Prop := c = ',' ∨ c = '"' ∨ c = '\r' ∨ c = '\n'

def doubled (c : Char) : List Char := if c = '"' then ['"', '"'] else [c]

-- A record that would be written as nothing at all is no record, so a single empty field needs its quotes.
inductive FieldText : String → List Char → Prop where
  | quoted (s : String) : FieldText s ('"' :: (s.toList.flatMap doubled ++ ['"']))
  | bare (s : String) (plain : ∀ c ∈ s.toList, ¬ Special c) : FieldText s s.toList

inductive RecordText : List String → List Char → Prop where
  | one {s : String} {text : List Char} (field : FieldText s text) : RecordText [s] text
  | more {s : String} {row : List String} {text rest : List Char} (field : FieldText s text)
      (others : RecordText row rest) : RecordText (s :: row) (text ++ ',' :: rest)

inductive Ending : List Char → Prop where
  | lineFeed : Ending ['\n']
  | carriageReturn : Ending ['\r']
  | both : Ending ['\r', '\n']

inductive RowsText : List (List String) → List Char → Prop where
  | none : RowsText [] []
  | emptyLine {rows : List (List String)} {ending text : List Char} (ends : Ending ending)
      (others : RowsText rows text) : RowsText rows (ending ++ text)
  | unended {row : List String} {text : List Char} (record : RecordText row text) (visible : text ≠ []) :
      RowsText [row] text
  | ended {row : List String} {rows : List (List String)} {text ending rest : List Char}
      (record : RecordText row text) (visible : text ≠ []) (ends : Ending ending)
      (others : RowsText rows rest) : RowsText (row :: rows) (text ++ (ending ++ rest))

def fileBytes (marked : Bool) (text : List Char) : Bytes :=
  (if marked then byteOrderMark else []) ++ encode text

theorem encoded_free (c : Char) (plain : ¬ Special c) : ∀ b ∈ Utf8.encodeChar c, ¬ Delimits b ∧ b ≠ quoteMark := by
  intro b inChar
  have other : ∀ d : Char, d.toNat < 0x80 → (c = d → Special c) → b ≠ UInt8.ofNat d.toNat :=
    fun d ascii special => Utf8.encoded_byte_other c d ascii (fun same => plain (special same)) b inChar
  have notComma := other ',' (by decide) .inl
  have notReturn := other '\r' (by decide) (.inr ∘ .inr ∘ .inl)
  have notFeed := other '\n' (by decide) (.inr ∘ .inr ∘ .inr)
  refine ⟨?_, other '"' (by decide) (.inr ∘ .inl)⟩
  rw [Delimits, Splitter.endsRecord, Bool.or_eq_true, decide_eq_true_eq, decide_eq_true_eq]
  exact fun delimits => delimits.elim notComma fun ends => ends.elim notFeed notReturn

theorem encoded_doubled (cs : List Char) : encode (cs.flatMap doubled) = (encode cs).flatMap doubledByte := by
  induction cs with
  | nil => rfl
  | cons c cs ih =>
    have first : encode (doubled c) = (Utf8.encodeChar c).flatMap doubledByte := by
      by_cases quote : c = '"'
      · subst quote
        rfl
      · have single : doubled c = [c] := if_neg quote
        have bytes : encode [c] = Utf8.encodeChar c := List.append_nil _
        have others : ∀ b ∈ Utf8.encodeChar c, doubledByte b = [b] :=
          fun b inChar => if_neg (Utf8.encoded_byte_other c '"' (by decide) quote b inChar)
        rw [single, bytes, List.flatMap_def, List.map_congr_left others, ← List.flatMap_def, List.flatMap_singleton']
    rw [List.flatMap_cons, Utf8.encode_append, first, ih, Utf8.encode_cons, List.flatMap_append]

theorem field_bytes {s : String} {text : List Char} (written : FieldText s text) :
    FieldBytes false (encodeString s) (encode text) := by
  cases written with
  | quoted =>
    have bytes : encode ('"' :: (s.toList.flatMap doubled ++ ['"'])) =
        quoteMark :: ((encodeString s).flatMap doubledByte ++ [quoteMark]) := by
      rw [Utf8.encode_cons, Utf8.encode_append, encoded_doubled]
      rfl
    have field := FieldBytes.quoted (encodeString s) [] (fun b member => absurd member List.not_mem_nil) (by simp)
    rwa [List.append_nil, ← bytes] at field
  | bare plain =>
    have free : ∀ b ∈ encodeString s, ¬ Delimits b ∧ b ≠ quoteMark := by
      intro b member
      obtain ⟨c, inText, inChar⟩ := List.mem_flatMap.mp member
      exact encoded_free c (plain c inText) b inChar
    exact .bare _ (fun b member => (free b member).1) fun head => (free _ (List.mem_of_head? head)).2 rfl

theorem record_bytes {row : List String} {text : List Char} (written : RecordText row text) :
    RecordBytes false (row.map encodeString) (encode text) := by
  induction written with
  | one field => exact .one (field_bytes field)
  | more field _ ih =>
    rw [Utf8.encode_append, Utf8.encode_cons]
    exact .more (field_bytes field) ih

theorem ending_bytes {text : List Char} (written : Ending text) :
    ∃ b more, encode text = b :: more ∧ ∀ c ∈ b :: more, Splitter.endsRecord c = true := by
  cases written with
  | lineFeed => exact ⟨_, [], rfl, List.forall_mem_singleton.mpr rfl⟩
  | carriageReturn => exact ⟨_, [], rfl, List.forall_mem_singleton.mpr rfl⟩
  | both => exact ⟨_, [Position.lineFeed], rfl, List.forall_mem_cons.mpr ⟨rfl, List.forall_mem_singleton.mpr rfl⟩⟩

theorem lies_behind_ends {offset : Nat} {ends rest : Bytes} {rs : List Extent}
    (all : ∀ b ∈ ends, Splitter.endsRecord b = true) (lies : Lies (offset + ends.length) rest rs) :
    Lies offset (ends ++ rest) rs := by
  induction ends generalizing offset with
  | nil => exact lies
  | cons b ends ih =>
    obtain ⟨first, others⟩ := List.forall_mem_cons.mp all
    refine .emptyLine first (ih others ?_)
    rwa [List.length_cons, ← Nat.add_assoc, Nat.add_right_comm] at lies

theorem rows_bytes {rows : List (List String)} {text : List Char} (written : RowsText rows text) (offset : Nat) :
    ∃ rs, Lies offset (encode text) rs ∧ rs.map Extent.fields = rows.map (List.map encodeString) := by
  have seen : ∀ {text : List Char}, text ≠ [] → encode text ≠ [] :=
    fun visible empty => visible (Utf8.encode_injective empty)
  induction written generalizing offset with
  | none => exact ⟨[], .done offset, rfl⟩
  | @emptyLine rows ending text ends others ih =>
    obtain ⟨b, more, bytes, all⟩ := ending_bytes ends
    obtain ⟨rs, lies, fields⟩ := ih (offset + (b :: more).length)
    rw [Utf8.encode_append, bytes]
    exact ⟨rs, lies_behind_ends all lies, fields⟩
  | unended record visible => exact ⟨_, .last (record_bytes record) (seen visible), rfl⟩
  | @ended row rows text ending rest record visible ends others ih =>
    obtain ⟨b, more, bytes, all⟩ := ending_bytes ends
    obtain ⟨first, behind⟩ := List.forall_mem_cons.mp all
    obtain ⟨rs, lies, fields⟩ := ih (offset + (encode text).length + 1 + more.length)
    rw [Utf8.encode_append, Utf8.encode_append, bytes]
    refine ⟨_, .ended (record_bytes record) (seen visible) first (lies_behind_ends behind lies), ?_⟩
    rw [List.map_cons, List.map_cons, fields]

theorem splits_written {rows : List (List String)} {text : List Char} (marked : Bool)
    (written : RowsText rows text) (start : marked = false → text.head? ≠ some '\uFEFF') :
    ∃ rs, Splits (fileBytes marked text) rs ∧ rs.map Extent.fields = rows.map (List.map encodeString) := by
  cases marked with
  | true =>
    obtain ⟨rs, lies, fields⟩ := rows_bytes written byteOrderMark.length
    exact ⟨rs, ⟨byteOrderMark, encode text, rfl, .inl rfl, lies⟩, fields⟩
  | false =>
    obtain ⟨rs, lies, fields⟩ := rows_bytes written 0
    have unmarked : ¬ byteOrderMark <+: encode text := by
      rintro ⟨rest, marks⟩
      cases text with
      | nil => cases marks
      | cons c text =>
        have taken := Utf8.take_encoded c (encode text)
        rw [← Utf8.encode_cons, ← marks] at taken
        have mark : Utf8.takeChar? (byteOrderMark ++ rest) = some ('\uFEFF', rest) := Utf8.take_encoded '\uFEFF' rest
        cases taken.symm.trans mark
        exact start rfl rfl
    exact ⟨rs, ⟨[], encode text, rfl, .inr ⟨rfl, unmarked⟩, lies⟩, fields⟩

theorem split_written {rows : List (List String)} {text : List Char} (marked : Bool)
    (written : RowsText rows text) (start : marked = false → text.head? ≠ some '\uFEFF') :
    (split (fileBytes marked text)).map Record.fields = rows.map (List.map encodeString) := by
  obtain ⟨rs, splits, fields⟩ := splits_written marked written start
  rw [split_of_splits splits, marked_fields, fields]

end TablePeek.Csv
