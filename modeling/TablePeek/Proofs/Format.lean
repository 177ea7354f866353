import Mathlib.Data.List.Forall2
import TablePeek.Format
import TablePeek.Proofs.Files.Names
import TablePeek.Proofs.Text.Utf8

set_option autoImplicit false

namespace TablePeek

open TablePeek.Path (slash Still EndsIn Names)
open Name (dot)

def OtherCase (upper lower : UInt8) : Prop :=
  0x41 ≤ upper.toNat ∧ upper.toNat ≤ 0x5A ∧ lower.toNat = upper.toNat + 0x20

def SameLetter (b c : UInt8) : Prop := b = c ∨ OtherCase b c ∨ OtherCase c b

def Recased (bs cs : List UInt8) : Prop := List.Forall₂ SameLetter bs cs

namespace Format

def Announces (p : Path) (word : String) : Prop :=
  ∃ stem e, Names p (stem ++ dot :: e) ∧ stem ≠ [] ∧ dot ∉ e ∧ Recased e (Utf8.encodeString word)

section Bytes

theorem lower_value (b : UInt8) :
    (lowerByte b).toNat = if 0x41 ≤ b.toNat ∧ b.toNat ≤ 0x5A then b.toNat + 0x20 else b.toNat := by
  have upper : (0x41 ≤ b ∧ b ≤ 0x5A) ↔ (0x41 ≤ b.toNat ∧ b.toNat ≤ 0x5A) := Iff.rfl
  rw [lowerByte]
  by_cases capital : 0x41 ≤ b.toNat ∧ b.toNat ≤ 0x5A
  · rw [if_pos (upper.mpr capital), if_pos capital, UInt8.toNat_add]
    exact Nat.mod_eq_of_lt (by have := capital.2; simp; omega)
  · rw [if_neg (upper.not.mpr capital), if_neg capital]

theorem same_letter_iff (b c : UInt8) : SameLetter b c ↔ lowerByte b = lowerByte c := by
  rw [SameLetter, OtherCase, OtherCase, ← UInt8.toNat_inj, ← UInt8.toNat_inj, lower_value, lower_value]
  split <;> split <;> omega

theorem lower_twice (b : UInt8) : lowerByte (lowerByte b) = lowerByte b := by
  have letter : SameLetter (lowerByte b) b := by
    rw [SameLetter, OtherCase, OtherCase, ← UInt8.toNat_inj, lower_value]
    split <;> omega
  exact (same_letter_iff _ b).mp letter

theorem lower_other {c : UInt8} (other : c.toNat < 0x41) (b : UInt8) : lowerByte b = c ↔ b = c := by
  rw [← UInt8.toNat_inj, ← UInt8.toNat_inj, lower_value]
  split <;> omega

theorem recased_iff (bs cs : List UInt8) : Recased bs cs ↔ bs.map lowerByte = cs.map lowerByte := by
  rw [← List.forall₂_eq_eq_eq, List.forall₂_map_left_iff, List.forall₂_map_right_iff, Recased]
  exact ⟨List.Forall₂.imp fun b c => (same_letter_iff b c).mp, List.Forall₂.imp fun b c => (same_letter_iff b c).mpr⟩

theorem lowered_other (cs : List UInt8) (other : cs.all (fun c => c.toNat < 0x41) = true) (bs : List UInt8) :
    bs.map lowerByte = cs ↔ bs = cs := by
  induction cs generalizing bs with
  | nil => exact List.map_eq_nil_iff
  | cons c cs ih =>
    rw [List.all_cons, Bool.and_eq_true] at other
    cases bs with
    | nil => exact Iff.rfl
    | cons b bs =>
      rw [List.map_cons, List.cons.injEq, List.cons.injEq, lower_other (of_decide_eq_true other.1), ih other.2]

end Bytes

section Lowered

variable (p : Path) (n : Name)

theorem still_lowered : Name.isStill (n.map lowerByte) = n.isStill := by
  have here := lowered_other Name.here (by decide) n
  rw [Bool.eq_iff_iff, Path.still_iff, Path.still_iff, List.map_eq_nil_iff, here]

theorem trimmed_lowered (names : List Name) :
    Path.trimmed (names.map (List.map lowerByte)) = (Path.trimmed names).map (List.map lowerByte) := by
  have same : Name.isStill ∘ List.map lowerByte = Name.isStill := funext still_lowered
  rw [Path.trimmed, Path.trimmed, ← List.map_reverse, List.dropWhile_map, same, List.map_reverse]

theorem name_lowered : Path.name? (p.map lowerByte) = p.name?.map (List.map lowerByte) := by
  have apart : Path.parts (p.map lowerByte) = p.parts.map (List.map lowerByte) :=
    split_on_map (lower_other (by decide)) p
  have up (m : Name) : decide (m.map lowerByte ≠ Name.up) = decide (m ≠ Name.up) :=
    decide_eq_decide.mpr (lowered_other _ (by decide) m).not
  rw [Path.name?, Path.name?, apart, trimmed_lowered, List.getLast?_map, Option.filter_map]
  simp only [Function.comp_def, up]

theorem extension_lowered : Name.extension? (n.map lowerByte) = n.extension?.map (List.map lowerByte) := by
  have dots (m : Name) : dot ∈ m.map lowerByte ↔ dot ∈ m := by
    rw [List.mem_map]
    refine ⟨fun ⟨b, member, same⟩ => (lower_other (by decide) b).mp same ▸ member, fun member => ⟨dot, member, rfl⟩⟩
  by_cases member : dot ∈ n
  · obtain ⟨stem, e, rfl, free⟩ := Name.last_dot member
    have split : (stem ++ dot :: e).map lowerByte = stem.map lowerByte ++ dot :: e.map lowerByte := List.map_append
    rw [split, Name.extension_behind _ ((dots e).not.mpr free), Name.extension_behind _ free]
    cases stem <;> rfl
  · rw [Name.extension?, Name.extension?, List.splitOn_eq_singleton ((dots n).not.mpr member),
      List.splitOn_eq_singleton member]
    rfl

theorem of_extension_lowered : ofExtension (n.map lowerByte) = ofExtension n := by
  have twice : lowerByte ∘ lowerByte = lowerByte := funext lower_twice
  rw [ofExtension, ofExtension, List.map_map, twice]

theorem of_path_lowered : ofPath (p.map lowerByte) = ofPath p := by
  have named : Path.extension? (p.map lowerByte) = p.extension?.map (List.map lowerByte) := by
    rw [Path.extension?, Path.extension?, name_lowered]
    cases p.name? with
    | none => rfl
    | some n => exact extension_lowered n
  rw [ofPath, ofPath, named, Option.map_map]
  exact congrArg (fun f => (p.extension?.map f).getD .parquet) (funext of_extension_lowered)

end Lowered

section Announced

variable {p : Path}

theorem extension_of_path {e : Name} : p.extension? = some e ↔ ∃ stem, Names p (stem ++ dot :: e) ∧ stem ≠ [] ∧ dot ∉ e := by
  rw [Path.extension?, Option.bind_eq_some_iff]
  constructor
  · rintro ⟨n, named, found⟩
    obtain ⟨stem, rfl, filled, free⟩ := Name.extension_iff.mp found
    exact ⟨stem, Path.name_iff.mp named, filled, free⟩
  · rintro ⟨stem, named, filled, free⟩
    exact ⟨_, Path.name_iff.mpr named, Name.extension_iff.mpr ⟨stem, rfl, filled, free⟩⟩

theorem announces_iff (word : String) :
    Announces p word ↔ ∃ e, p.extension? = some e ∧ Recased e (Utf8.encodeString word) := by
  simp only [extension_of_path]
  constructor
  · rintro ⟨stem, e, named, filled, free, same⟩
    exact ⟨e, ⟨stem, named, filled, free⟩, same⟩
  · rintro ⟨e, ⟨stem, named, filled, free⟩, same⟩
    exact ⟨stem, e, named, filled, free, same⟩

theorem of_extension_csv (e : Name) : ofExtension e = .csv ↔ Recased e (Utf8.encodeString "csv") := by
  have lower : (Utf8.encodeString "csv").map lowerByte = Utf8.encodeString "csv" := by decide
  rw [recased_iff, lower, ofExtension]
  by_cases csv : e.map lowerByte = Utf8.encodeString "csv"
  · simp only [csv, if_true]
  · simp only [csv, if_false, iff_false]
    split <;> decide

theorem of_extension_json (e : Name) : ofExtension e = .json ↔ Recased e (Utf8.encodeString "json") := by
  have lower : (Utf8.encodeString "json").map lowerByte = Utf8.encodeString "json" := by decide
  have other : Utf8.encodeString "csv" ≠ Utf8.encodeString "json" := by decide
  rw [recased_iff, lower, ofExtension]
  by_cases csv : e.map lowerByte = Utf8.encodeString "csv"
  · simp [csv, other]
  · simp [csv]

theorem of_path_iff {f : Format} (told : f ≠ .parquet) : ofPath p = f ↔ ∃ e, p.extension? = some e ∧ ofExtension e = f := by
  rw [ofPath]
  cases p.extension? with
  | none => simp [told.symm]
  | some e => simp

theorem of_path_csv : ofPath p = .csv ↔ Announces p "csv" := by
  rw [of_path_iff (by decide), announces_iff]
  simp only [of_extension_csv]

theorem of_path_json : ofPath p = .json ↔ Announces p "json" := by
  rw [of_path_iff (by decide), announces_iff]
  simp only [of_extension_json]

theorem of_path_parquet : ofPath p = .parquet ↔ ¬ Announces p "csv" ∧ ¬ Announces p "json" := by
  rw [← of_path_csv, ← of_path_json]
  cases ofPath p <;> decide

theorem of_no_extension (none : p.extension? = none) : ofPath p = .parquet := by
  rw [ofPath, none]
  rfl

theorem recased_plain {bs cs : List UInt8} (same : Recased bs cs) (plain : ∀ c ∈ cs, c.toNat < 0x80) :
    ∀ b ∈ bs, b.toNat < 0x80 := by
  induction same with
  | nil => simp
  | @cons b c bs cs letter _ ih =>
    rw [List.forall_mem_cons] at plain ⊢
    refine ⟨?_, ih plain.2⟩
    have small := plain.1
    rcases letter with rfl | ⟨_, _, _⟩ | ⟨_, _, _⟩ <;> omega

theorem plain_decoded {bs : List UInt8} (plain : ∀ b ∈ bs, b.toNat < 0x80) : Utf8.decode? bs ≠ none := by
  have encoded : Utf8.encode (bs.map fun b => Char.ofNat b.toNat) = bs := by
    induction bs with
    | nil => rfl
    | cons b bs ih =>
      rw [List.forall_mem_cons] at plain
      have value : (Char.ofNat b.toNat).toNat = b.toNat := Utf8.char_of_nat_value (.inl (by have := plain.1; omega))
      rw [List.map_cons, Utf8.encode_cons, ih plain.2, Utf8.encode_ascii _ (by rw [value]; exact plain.1), value,
        UInt8.ofNat_toNat, List.singleton_append]
  rw [(Utf8.decode_some_iff bs _).mpr encoded]
  exact Option.some_ne_none _

theorem of_broken_extension {stem e : Name} (named : Names p (stem ++ dot :: e)) (free : dot ∉ e)
    (broken : Utf8.decode? e = none) : ofPath p = .parquet := by
  have told : p.extension? = (stem ++ dot :: e).extension? := by rw [Path.extension?, Path.name_iff.mpr named]; rfl
  rw [Name.extension_behind stem free] at told
  by_cases filled : stem = []
  · exact of_no_extension (told.trans (if_pos filled))
  · rw [if_neg filled] at told
    have other (word : String) (plain : (Utf8.encodeString word).all (fun c => c.toNat < 0x80) = true) :
        ¬ Announces p word := by
      rw [announces_iff, told]
      rintro ⟨f, same, recased⟩
      obtain rfl := Option.some.inj same
      have below := recased_plain recased fun c member => of_decide_eq_true (List.all_eq_true.mp plain c member)
      exact plain_decoded below broken
    exact of_path_parquet.mpr ⟨other "csv" (by decide), other "json" (by decide)⟩

theorem of_dotted {rest : Name} (named : Names p (dot :: rest)) (free : dot ∉ rest) : ofPath p = .parquet := by
  have told : p.extension? = Name.extension? ([] ++ dot :: rest) := by rw [Path.extension?, Path.name_iff.mpr named]; rfl
  exact of_no_extension (told.trans (Name.extension_behind [] free))

end Announced

/-- The format hangs on nothing but the extension of the last name: neither on the case of letters, nor on slashes and
single dots behind that name, nor on the directories in front of it. Paths with the extensions of the two text formats
announce these, and all others columnar files: those that end by going up, names that only begin with a dot, and
extensions that are no text among them. -/
theorem told_by_extension (p : Path) :
    (∀ q, Recased p q → ofPath q = ofPath p) ∧
      (∀ tail, Still tail → ofPath (p ++ tail) = ofPath p) ∧
      (∀ d n, Names p n → ofPath (d ++ slash :: p) = ofPath p) ∧
      (ofPath p = .csv ↔ Announces p "csv") ∧ (ofPath p = .json ↔ Announces p "json") ∧
      (ofPath p = .parquet ↔ ¬ Announces p "csv" ∧ ¬ Announces p "json") ∧
      (EndsIn p Name.up → ofPath p = .parquet) ∧
      (∀ rest, Names p (dot :: rest) → dot ∉ rest → ofPath p = .parquet) ∧
      ∀ stem e, Names p (stem ++ dot :: e) → dot ∉ e → Utf8.decode? e = none → ofPath p = .parquet := by
  refine ⟨fun q same => ?_, fun tail still => ?_, fun d n named => ?_, of_path_csv, of_path_json, of_path_parquet,
    fun up => ?_, fun rest => of_dotted, fun stem e => of_broken_extension⟩
  · rw [← of_path_lowered p, (recased_iff p q).mp same, of_path_lowered]
  · rw [ofPath, ofPath, Path.extension?, Path.name_still still, ← Path.extension?]
  · rw [ofPath, ofPath, Path.extension?, Path.name_behind d named, ← Path.name_iff.mpr named, ← Path.extension?]
  · exact of_no_extension (by rw [Path.extension?, Path.name_up up]; rfl)

theorem formats_told :
    let word := Utf8.encodeString
    let p := word "a.CSV"
    let broken := word "a." ++ [0xFF]
    Recased p (word "A.csv") ∧ ofPath (word "A.csv") = .csv ∧
      Still [slash, slash, dot] ∧ ofPath (p ++ [slash, slash, dot]) = .csv ∧
      Names p p ∧ ofPath (word "b.json" ++ slash :: p) = .csv ∧
      EndsIn (word "a.csv/..") Name.up ∧ ofPath (word "a.csv/..") = .parquet ∧
      Names (word ".csv") (word ".csv") ∧ ofPath (word ".csv") = .parquet ∧
      Utf8.decode? [0xFF] = none ∧ Names broken broken ∧ ofPath broken = .parquet := by
  intro word p broken
  have csv : ofPath p = .csv := by decide +kernel
  have recased : Recased p (word "A.csv") := (recased_iff _ _).mpr (by decide +kernel)
  have still : Still [slash, slash, dot] := .slash (.slashDot .none)
  have named : Names p p := Path.name_iff.mp (by decide +kernel)
  have up : EndsIn (word "a.csv/..") Name.up := Path.last_part_iff.mp (by decide +kernel)
  have hidden : Names (word ".csv") (word ".csv") := Path.name_iff.mp (by decide +kernel)
  have noText : Utf8.decode? [0xFF] = none := by decide +kernel
  have brokenNamed : Names broken broken := Path.name_iff.mp (by decide +kernel)
  obtain ⟨lower, behind, inside, _⟩ := told_by_extension p
  obtain ⟨_, _, _, _, _, _, goesUp, _⟩ := told_by_extension (word "a.csv/..")
  obtain ⟨_, _, _, _, _, _, _, dotted, _⟩ := told_by_extension (word ".csv")
  obtain ⟨_, _, _, _, _, _, _, _, unread⟩ := told_by_extension broken
  exact ⟨recased, (lower _ recased).trans csv, still, (behind _ still).trans csv, named, (inside _ _ named).trans csv,
    up, goesUp up, hidden, dotted (word "csv") hidden (by decide +kernel), noText, brokenNamed,
    unread (word "a") [0xFF] brokenNamed (by decide +kernel) noText⟩

end Format

end TablePeek
