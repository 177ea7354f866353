import TablePeek.Preview
import TablePeek.SampleWriter
import TablePeek.Proofs.CommandLine.Lines
import TablePeek.Proofs.Lookup

set_option autoImplicit false

namespace TablePeek.CommandLine

namespace Scan

def valuesFrom (source : Argument → Option Value) (arguments : List Argument) : Matches :=
  arguments.filterMap fun a => (source a).map fun v => (a.name, v)

def variableOf (env : Environment) (a : Argument) : Option Bytes := a.variableName.bind fun v => env.lookup v

def environmentValue (env : Environment) (a : Argument) : Option Value :=
  (variableOf env a).bind fun bs => (a.read bs).toOption

def defaultValue (a : Argument) : Option Value := a.default.bind fun d => (a.read (Utf8.encodeString d)).toOption

variable {env : Environment} {s t : Scan} {given : Matches} {a : Argument} {rest : List Argument}
  {source : Argument → Option Value}

theorem values_none (none : source a = none) : valuesFrom source (a :: rest) = valuesFrom source rest := by
  rw [valuesFrom, List.filterMap_cons, none]
  rfl

theorem values_some {v : Value} (some : source a = some v) :
    valuesFrom source (a :: rest) = (a.name, v) :: valuesFrom source rest := by
  rw [valuesFrom, List.filterMap_cons, some]
  rfl

theorem values_other {x : String} (other : x ≠ a.name) :
    (valuesFrom source (a :: rest)).lookup x = (valuesFrom source rest).lookup x := by
  cases found : source a with
  | none => rw [values_none found]
  | some v => rw [values_some found, lookup_other other]

theorem values_listed (listed : a.name ∈ given.map Prod.fst) (x : String) :
    (given.lookup x).or ((valuesFrom source (a :: rest)).lookup x) = (given.lookup x).or ((valuesFrom source rest).lookup x) := by
  by_cases own : x = a.name
  · rw [own]
    exact lookup_listed listed _ _
  · rw [values_other own]

theorem used_iff (counted : t.Counted given) (a : Argument) : t.hasUsed a = true ↔ a.name ∈ given.map Prod.fst := by
  rw [← counted.used, hasUsed, List.any_eq_true, List.mem_map]
  simp only [decide_eq_true_eq]

-- The variables that are looked at hold values: those of arguments that the line gives are not.
def Valid (env : Environment) (given : Matches) (arguments : List Argument) : Prop :=
  ∀ a ∈ arguments, a.name ∉ given.map Prod.fst → ∀ bs, variableOf env a = some bs → ∃ v, a.read bs = .ok v

theorem environment_given (counted : t.Counted given) (arguments : List Argument) (valid : Valid env given arguments) :
    ∃ (u : Scan) (values : Matches), t.fromEnvironment env arguments = .ok u ∧ u.Counted values ∧
      ∀ x, values.lookup x = (given.lookup x).or ((valuesFrom (environmentValue env) arguments).lookup x) := by
  induction arguments generalizing t given with
  | nil => exact ⟨t, given, rfl, counted, fun x => by simp [valuesFrom]⟩
  | cons a rest ih =>
    rw [Valid, List.forall_mem_cons] at valid
    rw [fromEnvironment]
    cases set : a.variableName.bind fun v => env.lookup v with
    | none =>
      have unset : environmentValue env a = none := by rw [environmentValue, variableOf, set, Option.bind_none]
      obtain ⟨u, values, done, counts, lookups⟩ := ih counted valid.2
      exact ⟨u, values, done, counts, fun x => by rw [lookups, values_none unset]⟩
    | some bs =>
      by_cases listed : a.name ∈ given.map Prod.fst
      · obtain ⟨u, values, done, counts, lookups⟩ := ih counted valid.2
        refine ⟨u, values, ?_, counts, fun x => by rw [lookups, values_listed listed]⟩
        simp only [(used_iff counted a).mpr listed, if_true, done]
      · obtain ⟨v, read⟩ := valid.1 listed bs set
        have known : environmentValue env a = some v := by
          rw [environmentValue, variableOf, set, Option.bind_some, read]
          rfl
        obtain ⟨t₁, took, counted₁⟩ := take_fresh (some bs) counted listed (fun _ => rfl) read
        have valid₁ : Valid env (given ++ [(a.name, v)]) rest := by
          refine fun b member fresh => valid.2 b member fun among => fresh ?_
          rw [List.map_append]
          exact List.mem_append_left _ among
        obtain ⟨u, values, done, counts, lookups⟩ := ih counted₁ valid₁
        refine ⟨u, values, ?_, counts, fun x => ?_⟩
        · simp only [not_used counted listed, Bool.false_eq_true, if_false, took, done]
        · rw [lookups, values_some known, List.lookup_append, Option.or_assoc, ← List.lookup_append, List.singleton_append]

theorem values_unused (used : Argument → Bool) (marked : ∀ a, used a = true ↔ a.name ∈ given.map Prod.fst)
    (arguments : List Argument) (x : String) :
    (given.lookup x).or ((valuesFrom (fun a => if used a then none else source a) arguments).lookup x) =
      (given.lookup x).or ((valuesFrom source arguments).lookup x) := by
  induction arguments with
  | nil => rfl
  | cons a rest ih =>
    by_cases listed : a.name ∈ given.map Prod.fst
    · rw [values_listed listed, values_listed listed, ih]
    · have asked : (if used a then none else source a) = source a := if_neg fun was => listed ((marked a).mp was)
      by_cases own : x = a.name
      · cases found : source a with
        | none => rw [values_none (asked.trans found), values_none found, ih]
        | some v => rw [values_some (asked.trans found), values_some found, own, List.lookup_cons_self, List.lookup_cons_self]
      · rw [values_other own, values_other own, ih]

theorem defaults_given (counted : t.Counted given) (arguments : List Argument) (x : String) :
    (t.fromDefaults arguments).lookup x = (given.lookup x).or ((valuesFrom defaultValue arguments).lookup x) := by
  have asked : t.fromDefaults arguments = given ++ valuesFrom (fun a => if t.hasUsed a then none else defaultValue a) arguments := by
    rw [fromDefaults, counted.values, valuesFrom]
    refine congrArg _ (List.filterMap_congr fun a _ => ?_)
    cases t.hasUsed a with
    | true => rfl
    | false => cases default : a.default <;> simp [defaultValue, default]
  rw [asked, List.lookup_append, values_unused _ (used_iff counted)]

end Scan

open Scan (environmentValue defaultValue valuesFrom Valid)

theorem parse_line {c : Command} (clear : c.Clear) {env : Environment} {given : Matches} {words : List Bytes}
    (items : Line.Items c given words) (once : (given.map Prod.fst).Nodup) (valid : Valid env given c.arguments) :
    ∃ m, c.parse env words = .ok m ∧ ∀ x, m.lookup x =
      ((given.lookup x).or ((valuesFrom (environmentValue env) c.arguments).lookup x)).or
        ((valuesFrom defaultValue c.arguments).lookup x) := by
  obtain ⟨t, stepped, counted⟩ := Scan.items_given clear items (Scan.counted_has Scan.start_counted) once
  rw [List.nil_append] at counted
  obtain ⟨u, values, filled, counts, lookups⟩ := Scan.environment_given counted c.arguments valid
  refine ⟨u.fromDefaults c.arguments, ?_, fun x => ?_⟩
  · simp only [Command.parse, stepped, filled]
  · rw [Scan.defaults_given counts, lookups]

theorem parse_line_unset {c : Command} (clear : c.Clear) {env : Environment} {given ordered : Matches} {words : List Bytes}
    (items : Line.Items c given words) (order : given.Perm ordered) (once : (ordered.map Prod.fst).Nodup)
    (unset : ∀ a ∈ c.arguments, Scan.variableOf env a = none) :
    ∃ m, c.parse env words = .ok m ∧ ∀ x, m.lookup x = (ordered.lookup x).or ((valuesFrom defaultValue c.arguments).lookup x) := by
  have distinct : (given.map Prod.fst).Nodup := (order.symm.map Prod.fst).nodup once
  have valid : Valid env given c.arguments := fun a member _ bs set => by rw [unset a member] at set; cases set
  have nothing : valuesFrom (environmentValue env) c.arguments = [] := by
    apply List.filterMap_eq_nil_iff.mpr
    intro a member
    rw [environmentValue, unset a member]
    rfl
  obtain ⟨m, parsed, lookups⟩ := parse_line clear items distinct valid
  refine ⟨m, parsed, fun x => ?_⟩
  rw [lookups, nothing, lookup_perm order distinct, List.lookup_nil, Option.or_none]

end TablePeek.CommandLine

namespace TablePeek

open CommandLine (Environment Line.Item Line.Items Matches Scan.valuesFrom Scan.defaultValue Scan.variableOf parse_line_unset)

namespace Preview

theorem command_clear : command.Clear := ⟨rfl, by decide, by decide, by decide⟩

theorem command_defaults : Scan.valuesFrom Scan.defaultValue command.arguments =
    [("path", .path (Utf8.encodeString defaultPath)), ("rows", .count 5)] := by decide +kernel

def given (path : Option Path) (rows : Option UInt64) (full : Bool) : Matches :=
  (path.map fun p => ("path", .path p)).toList ++
    ((rows.map fun n => ("rows", .count n)).toList ++ if full then [("full", .given)] else [])

def Asks (words : List Utf8.Bytes) (p : Path) (mode : Mode) : Prop :=
  ∃ (path : Option Path) (rows : Option UInt64) (full : Bool) (order : Matches), order.Perm (given path rows full) ∧
    Line.Items command order words ∧ p = path.getD (Utf8.encodeString defaultPath) ∧
    mode = if full then .full else .head (rows.getD 5).toNat

theorem parse_asked {env : Environment} {words : List Utf8.Bytes} {p : Path} {mode : Mode} (asks : Asks words p mode)
    (noPath : env.lookup "PARQUET_PREVIEW_PATH" = none) (noRows : env.lookup "PARQUET_PREVIEW_ROWS" = none) :
    ∃ a, Arguments.parse env words = .ok a ∧ a.path = p ∧ a.mode = mode := by
  obtain ⟨path, rows, full, order, perm, items, rfl, rfl⟩ := asks
  have unset : ∀ a ∈ command.arguments, Scan.variableOf env a = none := by
    intro a member
    simp only [command, CommandLine.Command.arguments, List.mem_cons, List.not_mem_nil, or_false] at member
    rcases member with rfl | rfl | rfl | rfl | rfl
    · exact noPath
    · exact noRows
    all_goals rfl
  have once : ((given path rows full).map Prod.fst).Nodup := by
    cases path <;> cases rows <;> cases full <;> simp [given]
  obtain ⟨m, parsed, lookups⟩ := parse_line_unset command_clear items perm once unset
  rw [command_defaults] at lookups
  refine ⟨.ofMatches m, by rw [Arguments.parse, parsed]; rfl, ?_, ?_⟩
  · rw [Arguments.ofMatches, Matches.path, lookups]
    cases path <;> cases rows <;> cases full <;> rfl
  · simp only [Arguments.mode, Arguments.ofMatches, Matches.isGiven, Matches.count, lookups]
    cases path <;> cases rows <;> cases full <;> rfl

end Preview

namespace SampleWriter

theorem command_clear : command.Clear := ⟨rfl, by decide, by decide, by decide⟩

theorem command_defaults : Scan.valuesFrom Scan.defaultValue command.arguments =
    [("output", .path (Utf8.encodeString defaultOutput)), ("rows", .count 20), ("seed", .count 42)] := by decide +kernel

def given (output : Option Path) (rows seed : Option UInt64) : Matches :=
  (output.map fun p => ("output", .path p)).toList ++
    ((rows.map fun n => ("rows", .count n)).toList ++ (seed.map fun n => ("seed", .count n)).toList)

def Asks (words : List Utf8.Bytes) (a : Arguments) : Prop :=
  ∃ (output : Option Path) (rows seed : Option UInt64) (order : Matches), order.Perm (given output rows seed) ∧
    Line.Items command order words ∧
    a = ⟨output.getD (Utf8.encodeString defaultOutput), rows.getD 20, seed.getD 42⟩

theorem parse_asked {words : List Utf8.Bytes} {a : Arguments} (asks : Asks words a) (env : Environment) :
    Arguments.parse env words = .ok a := by
  obtain ⟨output, rows, seed, order, perm, items, rfl⟩ := asks
  have unset : ∀ b ∈ command.arguments, Scan.variableOf env b = none := by
    intro b member
    simp only [command, CommandLine.Command.arguments, List.mem_cons, List.not_mem_nil, or_false] at member
    rcases member with rfl | rfl | rfl | rfl | rfl
    all_goals rfl
  have once : ((given output rows seed).map Prod.fst).Nodup := by
    cases output <;> cases rows <;> cases seed <;> simp [given]
  obtain ⟨m, parsed, lookups⟩ := parse_line_unset command_clear items perm once unset
  rw [command_defaults] at lookups
  rw [Arguments.parse, parsed]
  apply congrArg Except.ok
  simp only [Arguments.ofMatches, Matches.path, Matches.count, lookups]
  cases output <;> cases rows <;> cases seed <;> rfl

end SampleWriter

end TablePeek
