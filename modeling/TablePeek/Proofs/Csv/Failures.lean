import TablePeek.Proofs.Csv.Splitting
import TablePeek.Proofs.Csv.Table

set_option autoImplicit false

namespace TablePeek.Csv

open Utf8 (Bytes)

def IsText (field : Bytes) : Prop := ∃ cs, Utf8.encode cs = field

structure Sound (width : Nat) (fields : List Bytes) : Prop where
  level : fields.length = width
  texts : ∀ field ∈ fields, IsText field

-- Their number comes first, then the first of them that is not a text.
inductive Faulty (width : Nat) (fields : List Bytes) : Fault → Prop where
  | unequalLengths (differ : fields.length ≠ width) : Faulty width fields (.unequalLengths fields.length width)
  | notText {before after : List Bytes} {field : Bytes} (level : fields.length = width)
      (first : fields = before ++ field :: after) (texts : ∀ f ∈ before, IsText f) (broken : ¬ IsText field) :
      Faulty width fields (.notText before.length (Utf8.validLength field))

variable {width : Nat} {fields : List Bytes} {fault : Fault}

theorem faulty_unsound (faulty : Faulty width fields fault) : ¬ Sound width fields := by
  intro sound
  cases faulty with
  | unequalLengths differ => exact differ sound.level
  | notText _ first _ broken => exact broken (sound.texts _ (first ▸ by simp))

theorem texts_checked (number : Nat) (fields : List Bytes) :
    (∃ row, texts number fields = .ok row ∧ row.length = fields.length ∧ ∀ f ∈ fields, IsText f) ∨
      ∃ before field after, fields = before ++ field :: after ∧ (∀ f ∈ before, IsText f) ∧ ¬ IsText field ∧
        texts number fields = .error (.notText (number + before.length) (Utf8.validLength field)) := by
  induction fields generalizing number with
  | nil => exact .inl ⟨[], rfl, rfl, by simp⟩
  | cons field rest ih =>
    rw [texts]
    cases decoded : Utf8.decode? field with
    | none =>
      have broken : ¬ IsText field := by
        rintro ⟨cs, rfl⟩
        rw [Utf8.decode_encode] at decoded
        cases decoded
      exact .inr ⟨[], field, rest, rfl, by simp, broken, rfl⟩
    | some cs =>
      have text : IsText field := ⟨cs, (Utf8.decode_some_iff field cs).mp decoded⟩
      rcases ih (number + 1) with ⟨row, read, length, all⟩ | ⟨before, bad, after, rfl, all, broken, failed⟩
      · refine .inl ⟨String.ofList cs :: row, ?_, congrArg (· + 1) length, List.forall_mem_cons.mpr ⟨text, all⟩⟩
        simp only [read, Except.map]
      · refine .inr ⟨field :: before, bad, after, rfl, List.forall_mem_cons.mpr ⟨text, all⟩, broken, ?_⟩
        simp only [failed, Except.map, List.length_cons]
        congr 2
        omega

theorem record_checked (width : Nat) (r : Record) :
    (∃ row, checkRecord width r = .ok row ∧ row.length = width ∧ Sound width r.fields) ∨
      ∃ fault, checkRecord width r = .error fault ∧ Faulty width r.fields fault := by
  rw [checkRecord]
  by_cases level : r.fields.length = width
  · rw [if_pos level]
    rcases texts_checked 0 r.fields with ⟨row, read, length, all⟩ | ⟨before, field, after, first, all, broken, failed⟩
    · exact .inl ⟨row, read, length.trans level, level, all⟩
    · rw [Nat.zero_add] at failed
      exact .inr ⟨_, failed, .notText level first all broken⟩
  · rw [if_neg level]
    exact .inr ⟨_, rfl, .unequalLengths level⟩

def behind (bs : Bytes) (mark : Mark) (before : List Extent) : Mark :=
  (before.getLast?.map fun r => Mark.after (bs.take r.stop)).getD mark

theorem behind_cons (bs : Bytes) (mark : Mark) (r : Extent) (before : List Extent) :
    behind bs mark (r :: before) = behind bs (.after (bs.take r.stop)) before := by
  rw [behind, behind, List.getLast?_cons]
  cases before.getLast? <;> rfl

theorem all_checked (width number : Nat) (bs : Bytes) (mark : Mark) (rs : List Extent) :
    (∃ rows, checkAll width number (marked bs mark rs) = .ok rows ∧ rows.length = rs.length ∧
        (∀ row ∈ rows, row.length = width) ∧ ∀ r ∈ rs, Sound width r.fields) ∨
      ∃ before r after fault, rs = before ++ r :: after ∧ (∀ q ∈ before, Sound width q.fields) ∧
        Faulty width r.fields fault ∧
        checkAll width number (marked bs mark rs) = .error ⟨number + before.length, behind bs mark before, fault⟩ := by
  induction rs generalizing number mark with
  | nil => exact .inl ⟨[], rfl, rfl, by simp, by simp⟩
  | cons r rs ih =>
    rw [marked, checkAll]
    rcases record_checked width ⟨mark, r.fields⟩ with ⟨row, read, length, sound⟩ | ⟨fault, failed, faulty⟩
    · rw [read]
      simp only
      rcases ih (number + 1) (.after (bs.take r.stop)) with
        ⟨rows, all, count, lengths, sounds⟩ | ⟨before, bad, after, fault, rfl, sounds, faulty, failed⟩
      · exact .inl ⟨row :: rows, by rw [all, Except.map], congrArg (· + 1) count,
          List.forall_mem_cons.mpr ⟨length, lengths⟩, List.forall_mem_cons.mpr ⟨sound, sounds⟩⟩
      · refine .inr ⟨r :: before, bad, after, fault, rfl, List.forall_mem_cons.mpr ⟨sound, sounds⟩, faulty, ?_⟩
        rw [failed, Except.map, behind_cons, List.length_cons]
        congr 2
        omega
    · rw [failed]
      exact .inr ⟨[], r, rs, fault, rfl, by simp, faulty, rfl⟩

-- The header is a record like the others, only that it says how many fields they have.
theorem sheet_checked (r : Record) (rest : List Record) :
    sheet (r :: rest) = (checkAll r.fields.length 0 (r :: rest)).map fun rows => ⟨rows.headD [], rows.tail⟩ := by
  rw [sheet, checkAll]
  cases checkRecord r.fields.length r with
  | error fault => rfl
  | ok header =>
    simp only
    cases checkAll r.fields.length 1 rest <;> rfl

theorem fields_nonempty {offset : Nat} {bs : Bytes} {rs : List Extent} (lies : Lies offset bs rs) :
    ∀ r ∈ rs, r.fields ≠ [] := by
  have filled : ∀ {cut : Bool} {values : List Bytes} {text : Bytes}, RecordBytes cut values text → values ≠ [] := by
    intro cut values text record
    cases record <;> exact List.cons_ne_nil _ _
  induction lies with
  | done => simp
  | emptyLine _ _ ih => exact ih
  | last record _ => exact fun r only => List.mem_singleton.mp only ▸ filled record
  | ended record _ _ _ ih => exact List.forall_mem_cons.mpr ⟨filled record, ih⟩

theorem stop_inside {offset : Nat} {rest : Bytes} {rs : List Extent} (lies : Lies offset rest rs) :
    ∀ r ∈ rs, r.stop ≤ offset + rest.length := by
  induction lies with
  | done => simp
  | emptyLine _ _ ih =>
    intro r member
    have inside := ih r member
    rw [List.length_cons]
    omega
  | last => exact fun r only => List.mem_singleton.mp only ▸ Nat.le_refl _
  | @ended offset values text rest b rs _ _ _ _ ih =>
    have length : (text ++ b :: rest).length = text.length + 1 + rest.length := by
      rw [List.length_append, List.length_cons]
      omega
    rw [length]
    refine List.forall_mem_cons.mpr ⟨?_, fun r member => ?_⟩
    · change offset + text.length + 1 ≤ _
      omega
    · have inside := ih r member
      omega

theorem place_behind (bs : Bytes) (before : List Extent) (inside : ∀ r ∈ before, r.stop ≤ bs.length) :
    (behind bs .start before).byte = (before.getLast?.map Extent.stop).getD 0 ∧
      (behind bs .start before).line = 1 + (bs.take (behind bs .start before).byte).count Position.lineFeed := by
  cases last : before.getLast? with
  | none =>
    rw [behind, last]
    exact ⟨rfl, rfl⟩
  | some r =>
    have within := inside r (List.mem_of_getLast? last)
    have counted : behind bs .start before = ⟨1 + (bs.take r.stop).count Position.lineFeed, 0 + r.stop⟩ := by
      have place := Mark.fold_advance (bs.take r.stop) .start
      rw [List.length_take_of_le within] at place
      rw [behind, last]
      exact place
    rw [counted, Nat.zero_add]
    exact ⟨rfl, rfl⟩

section Loading

variable {fs : FileSystem} {p : Path} {bs : Bytes} {rs : List Extent}

theorem load_sheet (csv : Format.ofPath p = .csv) (found : fs.find p = .ok (.file (.bytes bs))) :
    fs.load p = match sheet (split bs) with
      | .error e => .error (.csv e)
      | .ok s => Load.tableOf s.columns := by
  simp only [FileSystem.load, Load.opened, found, csv, Load.node, Load.csv, Load.csvBytes, read]
  cases sheet (split bs) <;> rfl

def widthOf (rs : List Extent) : Nat := (rs.head?.map fun r => r.fields.length).getD 0

theorem load_checked (csv : Format.ofPath p = .csv) (found : fs.find p = .ok (.file (.bytes bs))) (splits : Splits bs rs) :
    (∃ t, fs.load p = .ok t ∧ t.numRows = rs.length - 1 ∧ ∀ r ∈ rs, Sound (widthOf rs) r.fields) ∨
      ∃ before r after fault, rs = before ++ r :: after ∧ (∀ q ∈ before, Sound (widthOf rs) q.fields) ∧
        Faulty (widthOf rs) r.fields fault ∧
        fs.load p = .error (.csv ⟨before.length, behind bs .start before, fault⟩) := by
  rw [load_sheet csv found, split_of_splits splits]
  have filled : ∀ r ∈ rs, r.fields ≠ [] := by
    obtain ⟨_, _, _, _, lies⟩ := splits
    exact fields_nonempty lies
  cases rs with
  | nil => exact .inl ⟨Table.empty, rfl, rfl, by simp⟩
  | cons r rest =>
    have width : widthOf (r :: rest) = r.fields.length := rfl
    have checked := all_checked r.fields.length 0 bs .start (r :: rest)
    rw [marked] at checked ⊢
    rw [sheet_checked, width]
    rcases checked with ⟨rows, all, count, lengths, sounds⟩ | ⟨before, bad, after, fault, order, sounds, faulty, failed⟩
    · cases rows with
      | nil => cases count
      | cons header rows =>
        have named : header ≠ [] := by
          rintro rfl
          exact filled r List.mem_cons_self (List.length_eq_zero_iff.mp (lengths [] List.mem_cons_self).symm)
        have nonempty : columnsFrom rows 0 header ≠ [] := by
          intro none
          have names := columns_from_names rows 0 header
          rw [none] at names
          exact named names.symm
        have table := table_of_cells nonempty (columns_from_equal rows 0 header)
        simp only [all, Except.map]
        refine .inl ⟨_, table, ?_, sounds⟩
        rw [single_batch_rows]
        exact Nat.succ.inj count
    · rw [Nat.zero_add] at failed
      simp only [failed, Except.map]
      exact .inr ⟨before, bad, after, fault, order, sounds, faulty, rfl⟩

/-- A file loads exactly if all its records are sound, each with as many fields as the first and all of them texts, and
then it has a row for each record but the first. Otherwise the first record that is not sound is the one the error
names, with the place where the record before it ended. -/
theorem loads_whole_or_fails (csv : Format.ofPath p = .csv) (found : fs.find p = .ok (.file (.bytes bs))) :
    (∃ rs, Splits bs rs) ∧ ∀ rs, Splits bs rs →
      ((∃ t, fs.load p = .ok t) ↔ ∀ r ∈ rs, Sound (widthOf rs) r.fields) ∧
      (∀ t, fs.load p = .ok t → t.numRows = rs.length - 1) ∧
      ((¬ ∀ r ∈ rs, Sound (widthOf rs) r.fields) → ∃ before r after, ∃ e : Error, rs = before ++ r :: after ∧
        (∀ q ∈ before, Sound (widthOf rs) q.fields) ∧ ¬ Sound (widthOf rs) r.fields ∧
        fs.load p = .error (.csv e) ∧ (LoadError.csv e).kind = "Csv" ∧ e.record = before.length ∧
        Faulty (widthOf rs) r.fields e.fault ∧ e.mark.byte = (before.getLast?.map Extent.stop).getD 0 ∧
        e.mark.line = 1 + (bs.take e.mark.byte).count Position.lineFeed) := by
  refine ⟨splits_exists bs, fun rs splits => ?_⟩
  have inside : ∀ r ∈ rs, r.stop ≤ bs.length := by
    obtain ⟨lead, rest, rfl, _, lies⟩ := splits
    exact fun r member => List.length_append ▸ stop_inside lies r member
  rcases load_checked csv found splits with
    ⟨t, loaded, rows, sounds⟩ | ⟨before, r, after, fault, order, sounds, faulty, failed⟩
  · refine ⟨⟨fun _ => sounds, fun _ => ⟨t, loaded⟩⟩, fun other again => ?_, fun unsound => absurd sounds unsound⟩
    rw [loaded] at again
    exact Except.ok.inj again ▸ rows
  · have unsound := faulty_unsound faulty
    have none : ∀ t, fs.load p ≠ .ok t := by
      intro t loaded
      cases failed.symm.trans loaded
    obtain ⟨byte, line⟩ := place_behind bs before fun q member => inside q (order ▸ List.mem_append_left _ member)
    refine ⟨⟨fun ⟨t, loaded⟩ => absurd loaded (none t), fun all => absurd (all r (order ▸ ?_)) unsound⟩,
      fun t loaded => absurd loaded (none t), fun _ => ?_⟩
    · exact List.mem_append_right _ List.mem_cons_self
    · exact ⟨before, r, after, _, order, sounds, unsound, failed, rfl, rfl, faulty, byte, line⟩

theorem short_record_fails :
    let bs := Utf8.encodeString "a,b\n\n\"x\n\",1\r\n2\n" ++ [0xFF]
    let fs : FileSystem := ⟨[([Utf8.encodeString "a.csv"], .file (.bytes bs))], []⟩
    ∃ e : Error, fs.load (Utf8.encodeString "a.csv") = .error (.csv e) ∧ e.record = 2 ∧
      e.fault = .unequalLengths 1 2 ∧ e.mark = ⟨4, 12⟩ := by
  intro bs fs
  have found : fs.find (Utf8.encodeString "a.csv") = .ok (.file (.bytes bs)) := rfl
  have field : ∀ b, ¬ Delimits b → b ≠ quoteMark → FieldBytes false [b] [b] := fun b free unquoted =>
    .bare [b] (fun c only => List.mem_singleton.mp only ▸ free) fun head => unquoted (Option.some.inj head)
  have one := fun b free unquoted => RecordBytes.one (field b free unquoted)
  have quoted := FieldBytes.quoted [0x78, 0x0A] [] (fun b member => absurd member List.not_mem_nil) (by simp)
  have header : RecordBytes false [[0x61], [0x62]] [0x61, 0x2C, 0x62] :=
    .more (field 0x61 (by decide) (by decide)) (one 0x62 (by decide) (by decide))
  have full : RecordBytes false [[0x78, 0x0A], [0x31]] [0x22, 0x78, 0x0A, 0x22, 0x2C, 0x31] :=
    .more quoted (one 0x31 (by decide) (by decide))
  have splits : Splits bs [⟨[[0x61], [0x62]], 4⟩, ⟨[[0x78, 0x0A], [0x31]], 12⟩, ⟨[[0x32]], 15⟩, ⟨[[0xFF]], 16⟩] :=
    ⟨[], bs, rfl, .inr ⟨rfl, by decide⟩, .ended header (by simp) rfl (.emptyLine rfl (.ended full (by simp) rfl
      (.emptyLine rfl (.ended (one 0x32 (by decide) (by decide)) (by simp) rfl
        (.last (one 0xFF (by decide) (by decide)) (by simp))))))⟩
  have first : Sound 2 [[0x61], [0x62]] := ⟨rfl, by
    rintro _ (_ | ⟨_, _ | ⟨_, member⟩⟩)
    · exact ⟨['a'], rfl⟩
    · exact ⟨['b'], rfl⟩
    · cases member⟩
  have second : Sound 2 [[0x78, 0x0A], [0x31]] := ⟨rfl, by
    rintro _ (_ | ⟨_, _ | ⟨_, member⟩⟩)
    · exact ⟨['x', '\n'], rfl⟩
    · exact ⟨['1'], rfl⟩
    · cases member⟩
  have short : ¬ Sound 2 [[0x32]] := fun sound => absurd sound.level (by decide)
  obtain ⟨before, r, after, e, order, sounds, unsound, failed, _, record, faulty, byte, line⟩ :=
    ((loads_whole_or_fails (by decide +kernel) found).2 _ splits).2.2 fun all => short (all ⟨_, 15⟩ (by simp))
  obtain ⟨rfl, rfl⟩ : before = [⟨[[0x61], [0x62]], 4⟩, ⟨[[0x78, 0x0A], [0x31]], 12⟩] ∧ r = ⟨[[0x32]], 15⟩ := by
    match before, order, sounds with
    | [], order, _ => cases order; exact absurd first unsound
    | [_], order, _ => cases order; exact absurd second unsound
    | [_, _], order, _ => cases order; exact ⟨rfl, rfl⟩
    | _ :: _ :: q :: _, order, sounds =>
      obtain rfl : ⟨[[0x32]], 15⟩ = q := (List.cons.inj (List.cons.inj (List.cons.inj order).2).2).1
      exact absurd (sounds ⟨_, 15⟩ (by simp)) short
  rw [byte] at line
  refine ⟨e, failed, record, ?_, congr (congrArg Mark.mk line) byte⟩
  generalize e.fault = fault at faulty
  cases faulty with
  | unequalLengths => rfl
  | notText level => cases level

end Loading

end TablePeek.Csv
