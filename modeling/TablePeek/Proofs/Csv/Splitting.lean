import TablePeek.Proofs.Csv.Grammar

set_option autoImplicit false

namespace TablePeek.Csv

open Utf8 (Bytes)

namespace Mark

theorem after_append (front back : Bytes) : after (front ++ back) = back.foldl advance (after front) :=
  List.foldl_append

theorem fold_advance (bs : Bytes) (m : Mark) :
    bs.foldl advance m = ⟨m.line + bs.count Position.lineFeed, m.byte + bs.length⟩ := by
  induction bs generalizing m with
  | nil => rfl
  | cons b bs ih =>
    rw [List.foldl_cons, ih, advance]
    by_cases feed : b = Position.lineFeed
    · subst feed
      simp [Nat.add_comm, Nat.add_left_comm]
    · simp [feed, Nat.add_comm, Nat.add_left_comm]

end Mark

namespace Splitter

variable {s : Splitter} {b : UInt8} {value text bs : Bytes} {values : List Bytes} {cut : Bool}

def Opens (state : State) : Prop := state = .between ∨ state = .afterReturn ∨ state = .fieldStart

def Rests (state : State) : Prop := state = .between ∨ state = .afterReturn

def inField (s : Splitter) (state : State) (bs value : Bytes) : Splitter :=
  { s with state, here := bs.foldl Mark.advance s.here, field := value.reverse ++ s.field }

theorem in_field_again (state later : State) (bs cs value more : Bytes) :
    (s.inField state bs value).inField later cs more = s.inField later (bs ++ cs) (value ++ more) := by
  simp only [inField, List.foldl_append, List.reverse_append, List.append_assoc]

theorem outside_free (free : ¬ Delimits b) : s.outside b = s.push .bare b := by
  simp only [Delimits, endsRecord, Bool.or_eq_true, decide_eq_true_eq, not_or] at free
  rw [outside, if_neg free.1, if_neg free.2.2, if_neg free.2.1]

theorem step_first (opens : Opens s.state) (free : ¬ Delimits b) (unquoted : b ≠ quoteMark) :
    s.step b = s.inField .bare [b] [b] := by
  obtain ⟨state, here, mark, field, fields, records⟩ := s
  have inside : ¬ endsRecord b = true := fun ends => free (.inr ends)
  rcases opens with rfl | rfl | rfl <;>
    simp only [step, atRecord, if_neg inside, atField, if_neg unquoted, outside_free free] <;> rfl

theorem step_open (opens : Opens s.state) : s.step quoteMark = s.inField .quoted [quoteMark] [] := by
  obtain ⟨state, here, mark, field, fields, records⟩ := s
  rcases opens with rfl | rfl | rfl <;> rfl

theorem step_bare (bare : s.state = .bare) (free : ¬ Delimits b) : s.step b = s.inField .bare [b] [b] := by
  obtain ⟨state, here, mark, field, fields, records⟩ := s
  obtain rfl : state = .bare := bare
  simp only [step, outside_free free]
  rfl

theorem step_behind (quoted : s.state = .quoteInQuoted) (free : ¬ Delimits b) (closed : b ≠ quoteMark) :
    s.step b = s.inField .bare [b] [b] := by
  obtain ⟨state, here, mark, field, fields, records⟩ := s
  obtain rfl : state = .quoteInQuoted := quoted
  simp only [step, if_neg closed, outside_free free]
  rfl

theorem step_quoted (quoted : s.state = .quoted) (other : b ≠ quoteMark) : s.step b = s.inField .quoted [b] [b] := by
  obtain ⟨state, here, mark, field, fields, records⟩ := s
  obtain rfl : state = .quoted := quoted
  simp only [step, if_neg other]
  rfl

theorem step_quote (quoted : s.state = .quoted) : s.step quoteMark = s.inField .quoteInQuoted [quoteMark] [] := by
  obtain ⟨state, here, mark, field, fields, records⟩ := s
  obtain rfl : state = .quoted := quoted
  rfl

theorem step_second_quote (quoted : s.state = .quoteInQuoted) :
    s.step quoteMark = s.inField .quoted [quoteMark] [quoteMark] := by
  obtain ⟨state, here, mark, field, fields, records⟩ := s
  obtain rfl : state = .quoteInQuoted := quoted
  rfl

theorem step_comma (outsideQuotes : s.state ≠ .quoted) : s.step comma =
    { s with state := .fieldStart, here := s.here.advance comma, field := [], fields := s.field.reverse :: s.fields } := by
  obtain ⟨state, here, mark, field, fields, records⟩ := s
  cases state with
  | quoted => exact absurd rfl outsideQuotes
  | _ => rfl

theorem step_rest (rests : Rests s.state) (ends : endsRecord b = true) :
    s.step b = { s with state := .between, here := s.here.advance b } := by
  obtain ⟨state, here, mark, field, fields, records⟩ := s
  rcases rests with rfl | rfl <;> simp only [step, atRecord, if_pos ends]

theorem step_end (begun : ¬ Rests s.state) (outsideQuotes : s.state ≠ .quoted) (ends : endsRecord b = true) :
    ∃ state, Rests state ∧ s.step b = (({ s with here := s.here.advance b } : Splitter).endRecord state) := by
  obtain ⟨state, here, mark, field, fields, records⟩ := s
  have which : b = Position.lineFeed ∨ b = carriageReturn := by simpa [endsRecord] using ends
  rcases which with rfl | rfl
  · refine ⟨.between, .inl rfl, ?_⟩
    cases state with
    | between => exact absurd (.inl rfl) begun
    | afterReturn => exact absurd (.inr rfl) begun
    | quoted => exact absurd rfl outsideQuotes
    | _ => rfl
  · refine ⟨.afterReturn, .inr rfl, ?_⟩
    cases state with
    | between => exact absurd (.inl rfl) begun
    | afterReturn => exact absurd (.inr rfl) begun
    | quoted => exact absurd rfl outsideQuotes
    | _ => rfl

theorem fold_bare (bs : Bytes) (free : Free bs) (bare : s.state = .bare) : bs.foldl step s = s.inField .bare bs bs := by
  induction bs generalizing s with
  | nil =>
    obtain ⟨state, here, mark, field, fields, records⟩ := s
    obtain rfl : state = .bare := bare
    rfl
  | cons b bs ih =>
    obtain ⟨first, others⟩ := List.forall_mem_cons.mp free
    rw [List.foldl_cons, step_bare bare first, ih others rfl, in_field_again]
    rfl

theorem fold_doubled (inside : Bytes) (quoted : s.state = .quoted) :
    (inside.flatMap doubledByte).foldl step s = s.inField .quoted (inside.flatMap doubledByte) inside := by
  induction inside generalizing s with
  | nil =>
    obtain ⟨state, here, mark, field, fields, records⟩ := s
    obtain rfl : state = .quoted := quoted
    rfl
  | cons b inside ih =>
    have first : (doubledByte b).foldl step s = s.inField .quoted (doubledByte b) [b] := by
      by_cases quote : b = quoteMark
      · subst quote
        change (s.step quoteMark).step quoteMark = _
        rw [step_quote quoted, step_second_quote rfl, in_field_again]
        rfl
      · have single : doubledByte b = [b] := if_neg quote
        rw [single]
        exact step_quoted quoted quote
    rw [List.flatMap_cons, List.foldl_append, first, ih rfl, in_field_again]
    rfl

theorem fold_opened (opens : Opens s.state) (inside : Bytes) : (quoteMark :: inside.flatMap doubledByte).foldl step s =
    s.inField .quoted (quoteMark :: inside.flatMap doubledByte) inside := by
  rw [List.foldl_cons, step_open opens, fold_doubled inside rfl, in_field_again]
  rfl

theorem fold_closed (opens : Opens s.state) (inside : Bytes) :
    (quoteMark :: inside.flatMap doubledByte ++ [quoteMark]).foldl step s =
      s.inField .quoteInQuoted (quoteMark :: inside.flatMap doubledByte ++ [quoteMark]) inside := by
  rw [List.foldl_append, fold_opened opens, List.foldl_cons, List.foldl_nil, step_quote rfl, in_field_again, List.append_nil]

theorem fold_behind (quoted : s.state = .quoteInQuoted) (free : Free bs) (closed : bs.head? ≠ some quoteMark) :
    ∃ now, bs.foldl step s = s.inField now bs bs ∧ now ≠ .quoted ∧ ¬ Rests now := by
  cases bs with
  | nil =>
    obtain ⟨state, here, mark, field, fields, records⟩ := s
    obtain rfl : state = .quoteInQuoted := quoted
    exact ⟨.quoteInQuoted, rfl, by decide, by simp [Rests]⟩
  | cons b bs =>
    obtain ⟨first, others⟩ := List.forall_mem_cons.mp free
    have notQuote : b ≠ quoteMark := fun same => closed (congrArg some same)
    refine ⟨.bare, ?_, by decide, by simp [Rests]⟩
    rw [List.foldl_cons, step_behind quoted first notQuote, fold_bare bs others rfl, in_field_again]
    rfl

-- A field can be read wherever one may begin. Behind it the record has begun, unless nothing of it has been seen yet.
theorem field_read (written : FieldBytes cut value text) (opens : Opens s.state) :
    ∃ now, text.foldl step s = s.inField now text value ∧ (cut = false → now ≠ .quoted) ∧
      (text ≠ [] ∨ s.state = .fieldStart → ¬ Rests now) := by
  cases written with
  | bare _ free unquoted =>
    cases value with
    | nil =>
      refine ⟨s.state, rfl, fun _ quoted => ?_, fun visible rests => ?_⟩
      · rw [quoted] at opens
        rcases opens with same | same | same <;> cases same
      · have atField := visible.resolve_left fun filled => filled rfl
        rw [atField] at rests
        rcases rests with same | same <;> cases same
    | cons b rest =>
      obtain ⟨first, others⟩ := List.forall_mem_cons.mp free
      have notQuote : b ≠ quoteMark := fun same => unquoted (congrArg some same)
      refine ⟨.bare, ?_, fun _ => by decide, fun _ => by simp [Rests]⟩
      rw [List.foldl_cons, step_first opens first notQuote, fold_bare rest others rfl, in_field_again]
      rfl
  | quoted inside behind free closed =>
    have pieces : quoteMark :: (inside.flatMap doubledByte ++ quoteMark :: behind) =
        quoteMark :: inside.flatMap doubledByte ++ [quoteMark] ++ behind := by simp
    obtain ⟨now, read, outsideQuotes, begun⟩ := fold_behind
      (s := s.inField .quoteInQuoted (quoteMark :: inside.flatMap doubledByte ++ [quoteMark]) inside) rfl free closed
    refine ⟨now, ?_, fun _ => outsideQuotes, fun _ => begun⟩
    rw [pieces, List.foldl_append, fold_closed opens, read, in_field_again]
  | cut =>
    exact ⟨.quoted, fold_opened opens value, fun whole => Bool.noConfusion whole, fun _ => by simp [Rests]⟩

-- Behind the bytes of a record its fields are there, the last one still open.
theorem record_read (written : RecordBytes cut values text) (opens : Opens s.state) (empty : s.field = [])
    (visible : text ≠ [] ∨ s.state = .fieldStart) :
    ∃ now field fields, text.foldl step s = { s with state := now, here := text.foldl Mark.advance s.here, field, fields } ∧
      (field.reverse :: fields).reverse = s.fields.reverse ++ values ∧ ¬ Rests now ∧ (cut = false → now ≠ .quoted) := by
  induction written generalizing s with
  | one field =>
    obtain ⟨now, run, outsideQuotes, begun⟩ := field_read field opens
    refine ⟨now, _, s.fields, run, ?_, begun visible, outsideQuotes⟩
    simp [empty]
  | @more value text rest values field others ih =>
    obtain ⟨now, run, outsideQuotes, _⟩ := field_read field opens
    have separated := step_comma (s := s.inField now text value) (outsideQuotes rfl)
    obtain ⟨last, open', fields, behind, collected, begun, ended⟩ := ih
      (s := (s.inField now text value).step comma) (separated ▸ .inr (.inr rfl)) (separated ▸ rfl) (.inr (separated ▸ rfl))
    refine ⟨last, open', fields, ?_, ?_, begun, ended⟩
    · rw [List.foldl_append, List.foldl_cons, run, behind, separated]
      simp [inField]
    · rw [collected, separated]
      simp [inField, empty]

theorem record_ended (written : RecordBytes false values text) (visible : text ≠ []) (ends : endsRecord b = true)
    (rests : Rests s.state) (empty : s.field = []) (none : s.fields = []) :
    ∃ state here, Rests state ∧ here = (text ++ [b]).foldl Mark.advance s.here ∧
      (text ++ [b]).foldl step s = ⟨state, here, here, [], [], ⟨s.mark, values⟩ :: s.records⟩ := by
  obtain ⟨now, field, fields, run, collected, begun, whole⟩ := record_read written (rests.imp_right .inl) empty (.inl visible)
  rw [none, List.reverse_nil, List.nil_append] at collected
  obtain ⟨state, atRest, step⟩ := step_end (s := text.foldl step s) (run ▸ begun) (run ▸ whole rfl) ends
  refine ⟨state, _, atRest, rfl, ?_⟩
  rw [List.foldl_append, List.foldl_append, List.foldl_cons, List.foldl_nil, step, run, ← collected]
  rfl

theorem finish_resting (rests : Rests s.state) : s.finish = s.records.reverse := by
  obtain ⟨state, here, mark, field, fields, records⟩ := s
  rcases rests with rfl | rfl <;> rfl

theorem finish_begun (begun : ¬ Rests s.state) :
    s.finish = s.records.reverse ++ [⟨s.mark, (s.field.reverse :: s.fields).reverse⟩] := by
  obtain ⟨state, here, mark, field, fields, records⟩ := s
  cases state with
  | between => exact absurd (.inl rfl) begun
  | afterReturn => exact absurd (.inr rfl) begun
  | _ => exact List.reverse_cons

end Splitter

def marked (bs : Bytes) (mark : Mark) : List Extent → List Record
  | [] => []
  | r :: rs => ⟨mark, r.fields⟩ :: marked bs (.after (bs.take r.stop)) rs

theorem marked_fields (bs : Bytes) (mark : Mark) (rs : List Extent) :
    (marked bs mark rs).map Record.fields = rs.map Extent.fields := by
  induction rs generalizing mark with
  | nil => rfl
  | cons r rs ih => rw [marked, List.map_cons, List.map_cons, ih]

-- The invariant at each record: nothing of it is there yet.
theorem lies_read {s : Splitter} {offset : Nat} {front rest : Bytes} {rs : List Extent} (lies : Lies offset rest rs)
    (behind : offset = front.length) (rests : Splitter.Rests s.state) (empty : s.field = []) (none : s.fields = [])
    (here : s.here = .after front) :
    (rest.foldl Splitter.step s).finish = s.records.reverse ++ marked (front ++ rest) s.mark rs := by
  induction lies generalizing s front with
  | done => rw [List.foldl_nil, Splitter.finish_resting rests, marked, List.append_nil]
  | @emptyLine offset b rest rs ends others ih =>
    have step := Splitter.step_rest rests ends
    have reached : (s.step b).here = .after (front ++ [b]) := by
      rw [step, here, Mark.after_append]
      rfl
    have next := ih (by simp [behind]) (step ▸ .inl rfl) (step ▸ empty) (step ▸ none) reached
    rw [List.foldl_cons, next, step, List.append_assoc, List.singleton_append]
  | last record visible =>
    obtain ⟨now, field, fields, run, collected, begun, _⟩ :=
      Splitter.record_read record (rests.imp_right .inl) empty (.inl visible)
    rw [run, Splitter.finish_begun begun]
    simp only [collected, none]
    rfl
  | @ended offset values text rest b rs record visible ends others ih =>
    obtain ⟨state, _, atRest, rfl, run⟩ := Splitter.record_ended record visible ends rests empty none
    have length : offset + text.length + 1 = (front ++ (text ++ [b])).length := by simp [behind, Nat.add_assoc]
    have next := ih (s := (text ++ [b]).foldl Splitter.step s) length (run ▸ atRest) (run ▸ rfl) (run ▸ rfl)
      (by rw [run, here, Mark.after_append])
    have whole : front ++ (text ++ b :: rest) = front ++ (text ++ [b]) ++ rest := by simp
    have pieces : text ++ b :: rest = text ++ [b] ++ rest := by simp
    rw [marked, whole, List.take_left' length.symm, pieces, List.foldl_append, next, run, Mark.after_append, ← here,
      List.reverse_cons, List.append_assoc, List.singleton_append]

theorem split_of_splits {bs : Bytes} {rs : List Extent} (splits : Splits bs rs) : split bs = marked bs .start rs := by
  obtain ⟨lead, rest, rfl, led, lies⟩ := splits
  have read := lies_read (s := .start lead) lies rfl (.inl rfl) rfl rfl rfl
  rcases led with rfl | ⟨rfl, unmarked⟩
  · exact read
  · rw [List.nil_append] at unmarked read ⊢
    unfold split
    split
    · exact absurd ⟨_, rfl⟩ unmarked
    · exact read

end TablePeek.Csv
