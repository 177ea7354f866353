import TablePeek.Csv.Records

set_option autoImplicit false

namespace TablePeek.Csv

open Utf8 (Bytes)

def Delimits (b : UInt8) : Prop := b = comma ∨ Splitter.endsRecord b = true

instance : DecidablePred Delimits := fun _ => inferInstanceAs (Decidable (_ ∨ _))

def Free (bs : Bytes) : Prop := ∀ b ∈ bs, ¬ Delimits b

def doubledByte (b : UInt8) : Bytes := if b = quoteMark then [quoteMark, quoteMark] else [b]

-- A field may go on behind its closing quote; the flag says that the end of the bytes came before one.
inductive FieldBytes : Bool → Bytes → Bytes → Prop where
  | bare (text : Bytes) (free : Free text) (unquoted : text.head? ≠ some quoteMark) : FieldBytes false text text
  | quoted (inside behind : Bytes) (free : Free behind) (closed : behind.head? ≠ some quoteMark) :
      FieldBytes false (inside ++ behind) (quoteMark :: (inside.flatMap doubledByte ++ quoteMark :: behind))
  | cut (inside : Bytes) : FieldBytes true inside (quoteMark :: inside.flatMap doubledByte)

inductive RecordBytes : Bool → List Bytes → Bytes → Prop where
  | one {cut : Bool} {value text : Bytes} (field : FieldBytes cut value text) : RecordBytes cut [value] text
  | more {cut : Bool} {value text rest : Bytes} {values : List Bytes} (field : FieldBytes false value text)
      (others : RecordBytes cut values rest) : RecordBytes cut (value :: values) (text ++ comma :: rest)

structure Extent where
  fields : List Bytes
  stop : Nat
deriving DecidableEq, Repr

-- Records are never empty texts, so empty lines are none.
inductive Lies : Nat → Bytes → List Extent → Prop where
  | done (offset : Nat) : Lies offset [] []
  | emptyLine {offset : Nat} {b : UInt8} {rest : Bytes} {rs : List Extent} (ends : Splitter.endsRecord b = true)
      (others : Lies (offset + 1) rest rs) : Lies offset (b :: rest) rs
  | last {offset : Nat} {cut : Bool} {values : List Bytes} {text : Bytes} (record : RecordBytes cut values text)
      (visible : text ≠ []) : Lies offset text [⟨values, offset + text.length⟩]
  | ended {offset : Nat} {values : List Bytes} {text rest : Bytes} {b : UInt8} {rs : List Extent}
      (record : RecordBytes false values text) (visible : text ≠ []) (ends : Splitter.endsRecord b = true)
      (others : Lies (offset + text.length + 1) rest rs) :
      Lies offset (text ++ b :: rest) (⟨values, offset + text.length + 1⟩ :: rs)

def Splits (bs : Bytes) (rs : List Extent) : Prop :=
  ∃ lead rest, bs = lead ++ rest ∧ (lead = byteOrderMark ∨ lead = [] ∧ ¬ byteOrderMark <+: bs) ∧ Lies lead.length rest rs

theorem free_front (bs : Bytes) :
    Free bs ∨ ∃ text b rest, bs = text ++ b :: rest ∧ Free text ∧ Delimits b := by
  induction bs with
  | nil => exact .inl fun b member => absurd member List.not_mem_nil
  | cons b bs ih =>
    by_cases delimits : Delimits b
    · exact .inr ⟨[], b, bs, rfl, fun c member => absurd member List.not_mem_nil, delimits⟩
    rcases ih with free | ⟨text, c, rest, rfl, free, ends⟩
    · exact .inl (List.forall_mem_cons.mpr ⟨delimits, free⟩)
    · exact .inr ⟨b :: text, c, rest, rfl, List.forall_mem_cons.mpr ⟨delimits, free⟩, ends⟩

theorem quotes_closed (bs : Bytes) : (∃ inside : Bytes, bs = inside.flatMap doubledByte) ∨
    ∃ inside behind : Bytes, bs = inside.flatMap doubledByte ++ quoteMark :: behind ∧ behind.head? ≠ some quoteMark := by
  match bs with
  | [] => exact .inl ⟨[], rfl⟩
  | b :: rest =>
    by_cases quote : b = quoteMark
    · subst quote
      match rest with
      | [] => exact .inr ⟨[], [], rfl, by simp⟩
      | c :: rest =>
        by_cases second : c = quoteMark
        · subst second
          rcases quotes_closed rest with ⟨inside, rfl⟩ | ⟨inside, behind, rfl, closed⟩
          · exact .inl ⟨quoteMark :: inside, rfl⟩
          · exact .inr ⟨quoteMark :: inside, behind, rfl, closed⟩
        · exact .inr ⟨[], c :: rest, rfl, fun head => second (Option.some.inj head)⟩
    · have single : doubledByte b = [b] := if_neg quote
      rcases quotes_closed rest with ⟨inside, rfl⟩ | ⟨inside, behind, rfl, closed⟩
      · exact .inl ⟨b :: inside, by rw [List.flatMap_cons, single]; rfl⟩
      · exact .inr ⟨b :: inside, behind, by rw [List.flatMap_cons, single]; rfl, closed⟩

theorem field_exists (bs : Bytes) : (∃ cut value, FieldBytes cut value bs) ∨
    ∃ value text b rest, bs = text ++ b :: rest ∧ FieldBytes false value text ∧ Delimits b := by
  cases bs with
  | nil => exact .inl ⟨false, [], .bare [] (fun b member => absurd member List.not_mem_nil) (by simp)⟩
  | cons first bs =>
    by_cases quote : first = quoteMark
    · subst quote
      rcases quotes_closed bs with ⟨inside, rfl⟩ | ⟨inside, behind, rfl, closed⟩
      · exact .inl ⟨true, inside, .cut inside⟩
      rcases free_front behind with free | ⟨text, b, rest, rfl, free, ends⟩
      · exact .inl ⟨false, _, .quoted inside behind free closed⟩
      · have unquoted : text.head? ≠ some quoteMark := by
          cases text with
          | nil => simp
          | cons c text => exact closed
        exact .inr ⟨_, _, b, rest, by simp, .quoted inside text free unquoted, ends⟩
    · rcases free_front (first :: bs) with free | ⟨text, b, rest, shape, free, ends⟩
      · exact .inl ⟨false, _, .bare _ free fun head => quote (Option.some.inj head)⟩
      · have unquoted : text.head? ≠ some quoteMark := by
          cases text with
          | nil => simp
          | cons c text =>
            rw [← (List.cons.inj shape).1]
            exact fun head => quote (Option.some.inj head)
        exact .inr ⟨text, text, b, rest, shape, .bare text free unquoted, ends⟩

theorem record_exists (bs : Bytes) : (∃ cut values, RecordBytes cut values bs) ∨
    ∃ values text b rest, bs = text ++ b :: rest ∧ RecordBytes false values text ∧ Splitter.endsRecord b = true := by
  rcases field_exists bs with ⟨cut, value, field⟩ | ⟨value, text, b, rest, rfl, field, separates | ends⟩
  · exact .inl ⟨cut, [value], .one field⟩
  · subst separates
    rcases record_exists rest with ⟨cut, values, others⟩ | ⟨values, more, b, rest, rfl, others, ends⟩
    · exact .inl ⟨cut, value :: values, .more field others⟩
    · exact .inr ⟨value :: values, text ++ comma :: more, b, rest, by simp, .more field others, ends⟩
  · exact .inr ⟨[value], text, b, rest, rfl, .one field, ends⟩
termination_by bs.length
decreasing_by
  subst_vars
  simp
  omega

theorem lies_exists (offset : Nat) (bs : Bytes) : ∃ rs, Lies offset bs rs := by
  cases bs with
  | nil => exact ⟨[], .done offset⟩
  | cons first bs =>
    by_cases ends : Splitter.endsRecord first = true
    · obtain ⟨rs, others⟩ := lies_exists (offset + 1) bs
      exact ⟨rs, .emptyLine ends others⟩
    rcases record_exists (first :: bs) with ⟨cut, values, record⟩ | ⟨values, text, b, rest, shape, record, stop⟩
    · exact ⟨_, .last record (List.cons_ne_nil _ _)⟩
    · have visible : text ≠ [] := by
        rintro rfl
        rw [List.nil_append] at shape
        exact ends ((List.cons.inj shape).1 ▸ stop)
      obtain ⟨rs, others⟩ := lies_exists (offset + text.length + 1) rest
      rw [shape]
      exact ⟨_, .ended record visible stop others⟩
termination_by bs.length
decreasing_by
  · simp
  · have length := congrArg List.length shape
    simp at length ⊢
    omega

theorem splits_exists (bs : Bytes) : ∃ rs, Splits bs rs := by
  by_cases marked : byteOrderMark <+: bs
  · obtain ⟨rest, rfl⟩ := marked
    obtain ⟨rs, lies⟩ := lies_exists byteOrderMark.length rest
    exact ⟨rs, byteOrderMark, rest, rfl, .inl rfl, lies⟩
  · obtain ⟨rs, lies⟩ := lies_exists 0 bs
    exact ⟨rs, [], bs, rfl, .inr ⟨rfl, marked⟩, lies⟩

end TablePeek.Csv
