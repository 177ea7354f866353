import TablePeek.Proofs.CommandLine.Sources

set_option autoImplicit false

namespace TablePeek.CommandLine

section Unread

variable {c : Command} {env other : Environment} {s t u : Scan} {a : Argument} {p : Problem}

theorem read_problem {bs : Bytes} (failed : a.read bs = .error p) : p.isRequest = false := by
  rw [Argument.read] at failed
  split at failed
  · split at failed
    · obtain rfl := Except.error.inj failed
      rfl
    · cases failed
  · split at failed
    · obtain rfl := Except.error.inj failed
      rfl
    · split at failed
      · cases failed
      · obtain rfl := Except.error.inj failed
        rfl
  · cases failed

theorem give_problem {value : Option Bytes} (failed : s.give a value = (t, .error p)) : p.isRequest = false := by
  rw [Scan.give] at failed
  split at failed
  · obtain rfl := Except.error.inj (Prod.mk.inj failed).2
    rfl
  · split at failed
    · obtain rfl := Except.error.inj (Prod.mk.inj failed).2
      rfl
    · simp only at failed
      split at failed
      · rename_i unread
        obtain rfl := Except.error.inj (Prod.mk.inj failed).2
        exact read_problem unread
      · cases (Prod.mk.inj failed).2

theorem take_cases (value : Option Bytes) (s : Scan) :
    (∃ p : Problem, Scan.take a value s = .error p ∧ p.isRequest = false) ∨
      ∃ t : Scan, Scan.take a value s = .ok t ∧ t.used = s.used ++ [a] := by
  rw [Scan.take]
  rcases gave : s.give a value with ⟨t, p | ⟨⟩⟩
  · exact .inl ⟨p, rfl, give_problem gave⟩
  · exact .inr ⟨t, rfl, Scan.give_counts gave⟩

theorem environment_problem (arguments : List Argument) (failed : s.fromEnvironment env arguments = .error p) :
    p.isRequest = false := by
  induction arguments generalizing s with
  | nil => cases failed
  | cons a rest ih =>
    rw [Scan.fromEnvironment] at failed
    split at failed
    · exact ih failed
    · rename_i value _
      split at failed
      · exact ih failed
      · rcases take_cases (a := a) (some value) s with ⟨q, fails, noRequest⟩ | ⟨t, took, _⟩
        · rw [fails] at failed
          obtain rfl := Except.error.inj failed
          exact noRequest
        · rw [took] at failed
          exact ih failed

theorem environment_used (rest : List Argument) (used : s.hasUsed a = true) :
    s.fromEnvironment env (a :: rest) = s.fromEnvironment env rest := by
  rw [Scan.fromEnvironment]
  split
  · rfl
  · rw [if_pos used]

-- Only the variables of arguments that are missing so far are looked at.
theorem environment_unread (arguments : List Argument)
    (same : ∀ a ∈ arguments, s.hasUsed a = false → Scan.variableOf env a = Scan.variableOf other a) :
    s.fromEnvironment env arguments = s.fromEnvironment other arguments := by
  induction arguments generalizing s with
  | nil => rfl
  | cons a rest ih =>
    rw [List.forall_mem_cons] at same
    cases used : s.hasUsed a with
    | true => rw [environment_used rest used, environment_used rest used, ih same.2]
    | false =>
      have looked := same.1 used
      rw [Scan.variableOf, Scan.variableOf] at looked
      rw [Scan.fromEnvironment, Scan.fromEnvironment, looked]
      split
      · exact ih same.2
      · rename_i value _
        simp only [used, Bool.false_eq_true, if_false]
        rcases take_cases (a := a) (some value) s with ⟨p, fails, _⟩ | ⟨t, took, counts⟩
        · rw [fails]
        · rw [took]
          refine ih fun b among missing => same.2 b among ?_
          rw [Scan.hasUsed, counts, List.any_append, Bool.or_eq_false_iff] at missing
          exact missing.1

theorem message_unset (noRequest : p.isRequest = false) : p.message c env = p.message c other := by
  have raw : p.rawMessage c env = p.rawMessage c other := by
    cases p with
    | help => exact absurd noRequest (by decide)
    | _ => simp only [Problem.rawMessage]
  rw [Problem.message, Problem.message, raw]

theorem parse_line_unread (clear : c.Clear) {given : Matches} {words : List Bytes} (items : Line.Items c given words)
    (once : (given.map Prod.fst).Nodup)
    (same : ∀ a ∈ c.arguments, a.name ∉ given.map Prod.fst → Scan.variableOf env a = Scan.variableOf other a) :
    c.parse env words = c.parse other words ∧
      (c.parse env words).mapError (Problem.message c env) = (c.parse other words).mapError (Problem.message c other) := by
  obtain ⟨t, stepped, counted⟩ := Scan.items_given clear items (Scan.counted_has Scan.start_counted) once
  rw [List.nil_append] at counted
  have filled : t.fromEnvironment env c.arguments = t.fromEnvironment other c.arguments := by
    refine environment_unread c.arguments fun a member missing => same a member fun listed => ?_
    rw [(Scan.used_iff counted a).mpr listed] at missing
    cases missing
  have parsed : c.parse env words = c.parse other words := by simp only [Command.parse, stepped, filled]
  refine ⟨parsed, ?_⟩
  rw [parsed]
  cases failed : c.parse other words with
  | ok m => simp only [Except.mapError]
  | error p =>
    have noRequest : p.isRequest = false := by
      simp only [Command.parse, stepped] at failed
      split at failed
      · rename_i q fails
        obtain rfl := Except.error.inj failed
        exact environment_problem c.arguments fails
      · cases failed
    have text : p.message c env = p.message c other := message_unset noRequest
    simp only [Except.mapError, text]

end Unread

section Values

variable {c : Command} {env : Environment} {a : Argument} {source : Argument → Option Value} {value : Option Value}

def Known (env : Environment) (a : Argument) : Option Value → Prop
  | none => Scan.variableOf env a = none
  | some v => ∃ bs, Scan.variableOf env a = some bs ∧ a.read bs = .ok v

theorem known_value (known : Known env a value) : Scan.environmentValue env a = value := by
  rw [Scan.environmentValue]
  cases value with
  | none =>
    have unset : Scan.variableOf env a = none := known
    rw [unset]
    rfl
  | some v =>
    obtain ⟨bs, set, read⟩ := known
    rw [set, Option.bind_some, read]
    rfl

theorem known_reads {bs : Bytes} (known : Known env a value) (set : Scan.variableOf env a = some bs) :
    ∃ v, a.read bs = .ok v := by
  cases value with
  | none => cases set.symm.trans known
  | some v =>
    obtain ⟨held, same, read⟩ := known
    obtain rfl := Option.some.inj (set.symm.trans same)
    exact ⟨v, read⟩

theorem values_lookup {arguments : List Argument} (distinct : (arguments.map Argument.name).Nodup) (listed : a ∈ arguments) :
    (Scan.valuesFrom source arguments).lookup a.name = source a := by
  induction arguments with
  | nil => cases listed
  | cons b rest ih =>
    rw [List.map_cons, List.nodup_cons] at distinct
    rcases List.mem_cons.mp listed with rfl | later
    · cases known : source a with
      | some v => rw [Scan.values_some known, List.lookup_cons_self]
      | none =>
        rw [Scan.values_none known, List.lookup_eq_none_iff]
        intro g member
        obtain ⟨b, among, found⟩ := List.mem_filterMap.mp member
        obtain ⟨v, _, rfl⟩ := Option.map_eq_some_iff.mp found
        have apart : a.name ≠ b.name := fun same => distinct.1 (List.mem_map.mpr ⟨b, among, same.symm⟩)
        exact bne_iff_ne.mpr apart
    · have apart : a.name ≠ b.name := fun same => distinct.1 (same ▸ List.mem_map_of_mem later)
      rw [Scan.values_other apart, ih distinct.2 later]

theorem parse_line_values (clear : c.Clear) {given ordered : Matches} {words : List Bytes} (items : Line.Items c given words)
    (order : given.Perm ordered) (once : (ordered.map Prod.fst).Nodup) (valid : Scan.Valid env ordered c.arguments) :
    ∃ m, c.parse env words = .ok m ∧ ∀ a ∈ c.arguments, m.lookup a.name =
      ((ordered.lookup a.name).or (Scan.environmentValue env a)).or (Scan.defaultValue a) := by
  have distinct : (given.map Prod.fst).Nodup := (order.symm.map Prod.fst).nodup once
  have known : Scan.Valid env given c.arguments := fun a member missing =>
    valid a member fun listed => missing ((order.map Prod.fst).mem_iff.mpr listed)
  obtain ⟨m, parsed, lookups⟩ := parse_line clear items distinct known
  refine ⟨m, parsed, fun a member => ?_⟩
  rw [lookups, values_lookup clear.distinct member, values_lookup clear.distinct member, lookup_perm order distinct]

end Values

end TablePeek.CommandLine

namespace TablePeek.Preview

open CommandLine (Argument Environment Line.Item Line.Items Matches Problem Worth Scan.dash Scan.variableOf Scan.Valid
  Scan.environmentValue Scan.defaultValue)
open Utf8 (Bytes encode encodeString)

inductive Part where
  | path (p : Path)
  | rows (n : UInt64)
  | full
deriving DecidableEq, Repr

namespace Part

inductive Spelled : Part → List Bytes → Prop where
  | path (p : Path) (nonempty : p ≠ []) (undashed : p.head? ≠ some Scan.dash) : Spelled (.path p) [p]
  | short (n : UInt64) (ds : List Char) (worth : Worth n ds) : Spelled (.rows n) [encodeString "-n", encode ds]
  | shortJoined (n : UInt64) (ds : List Char) (worth : Worth n ds) :
      Spelled (.rows n) [encodeString "-n" ++ encode ds]
  | shortEquals (n : UInt64) (ds : List Char) (worth : Worth n ds) :
      Spelled (.rows n) [encodeString "-n=" ++ encode ds]
  | long (n : UInt64) (ds : List Char) (worth : Worth n ds) : Spelled (.rows n) [encodeString "--rows", encode ds]
  | longEquals (n : UInt64) (ds : List Char) (worth : Worth n ds) :
      Spelled (.rows n) [encodeString "--rows=" ++ encode ds]
  | full : Spelled .full [encodeString "--full"]

def value : Part → String × CommandLine.Value
  | .path p => ("path", .path p)
  | .rows n => ("rows", .count n)
  | .full => ("full", .given)

theorem spelled_item {part : Part} {words : List Bytes} (spelled : part.Spelled words) :
    Line.Item command part.value words := by
  have rows : command.options[0] ∈ command.options := List.getElem_mem (by decide)
  have full : command.options[1] ∈ command.options := List.getElem_mem (by decide)
  cases spelled with
  | path p nonempty undashed => exact .standing p nonempty undashed
  | short n ds worth => exact .short _ rows rfl 'n' rfl n ds (CommandLine.worth_read worth)
  | shortJoined n ds worth => exact .shortJoined _ rows rfl 'n' rfl n ds (CommandLine.worth_read worth)
  | shortEquals n ds worth => exact .shortEquals _ rows rfl 'n' rfl n ds (CommandLine.worth_read worth)
  | long n ds worth => exact .long _ rows rfl n ds (CommandLine.worth_read worth)
  | longEquals n ds worth => exact .longEquals _ rows rfl n ds (CommandLine.worth_read worth)
  | full => exact .flag _ full rfl

end Part

def parts (path : Option Path) (rows : Option UInt64) (full : Bool) : List Part :=
  (path.map .path).toList ++ (rows.map .rows).toList ++ if full then [.full] else []

-- Each of the parts once, in some order and spelling.
def Gives (words : List Bytes) (path : Option Path) (rows : Option UInt64) (full : Bool) : Prop :=
  ∃ spelled : List (Part × List Bytes), (spelled.map Prod.fst).Perm (parts path rows full) ∧
    (∀ s ∈ spelled, s.1.Spelled s.2) ∧ words = spelled.flatMap Prod.snd

def PathVariable (env : Environment) (path : Option Path) : Prop :=
  env.lookup "PARQUET_PREVIEW_PATH" = path ∧ path ≠ some []

def RowsVariable (env : Environment) : Option UInt64 → Prop
  | none => env.lookup "PARQUET_PREVIEW_ROWS" = none
  | some n => ∃ ds, Worth n ds ∧ env.lookup "PARQUET_PREVIEW_ROWS" = some (encode ds)

variable {env other : Environment} {words : List Bytes} {path pathSet : Option Path} {rows rowsSet : Option UInt64}
  {full : Bool}

theorem gives_items (gives : Gives words path rows full) :
    ∃ order : Matches, order.Perm ((parts path rows full).map Part.value) ∧ Line.Items command order words := by
  obtain ⟨spelled, perm, each, rfl⟩ := gives
  refine ⟨(spelled.map Prod.fst).map Part.value, perm.map Part.value, ?_⟩
  clear perm
  induction spelled with
  | nil => exact .none
  | cons s rest ih =>
    rw [List.forall_mem_cons] at each
    exact .more (Part.spelled_item each.1) (ih each.2)

theorem values_given (path : Option Path) (rows : Option UInt64) (full : Bool) :
    ((parts path rows full).map Part.value).lookup command.positional.name = path.map .path ∧
      ((parts path rows full).map Part.value).lookup command.options[0].name = rows.map .count ∧
      ((parts path rows full).map Part.value).lookup command.options[1].name = if full then some .given else none := by
  cases path <;> cases rows <;> cases full <;> exact ⟨rfl, rfl, rfl⟩

theorem parts_once (path : Option Path) (rows : Option UInt64) (full : Bool) :
    (((parts path rows full).map Part.value).map Prod.fst).Nodup := by
  cases path <;> cases rows <;> cases full <;> simp [parts, Part.value]

theorem names_given (path : Option Path) (rows : Option UInt64) (full : Bool) :
    ("path" ∉ ((parts path rows full).map Part.value).map Prod.fst → path = none) ∧
      ("rows" ∉ ((parts path rows full).map Part.value).map Prod.fst → rows = none) := by
  cases path <;> cases rows <;> cases full <;> simp [parts, Part.value]

theorem variable_cases {a : Argument} (member : a ∈ command.arguments) :
    (a = command.positional ∧ ∀ env, Scan.variableOf env a = env.lookup "PARQUET_PREVIEW_PATH") ∨
      (a = command.options[0] ∧ ∀ env, Scan.variableOf env a = env.lookup "PARQUET_PREVIEW_ROWS") ∨
      ∀ env, Scan.variableOf env a = none := by
  simp only [command, CommandLine.Command.arguments, List.mem_cons, List.not_mem_nil, or_false] at member
  rcases member with rfl | rfl | rfl | rfl | rfl
  · exact .inl ⟨rfl, fun _ => rfl⟩
  · exact .inr (.inl ⟨rfl, fun _ => rfl⟩)
  all_goals exact .inr (.inr fun _ => rfl)

theorem path_known (set : PathVariable env pathSet) :
    CommandLine.Known env command.positional (pathSet.map .path) := by
  obtain ⟨held, nonempty⟩ := set
  cases pathSet with
  | none => exact held
  | some p =>
    have filled : p.isEmpty = false := by simpa using nonempty
    refine ⟨p, held, ?_⟩
    simp only [command, Argument.read, filled, Bool.false_eq_true, if_false]

theorem rows_known (set : RowsVariable env rowsSet) :
    CommandLine.Known env command.options[0] (rowsSet.map .count) := by
  cases rowsSet with
  | none => exact set
  | some n =>
    obtain ⟨ds, worth, held⟩ := set
    exact ⟨encode ds, held, CommandLine.Scan.read_count rfl (CommandLine.worth_read worth)⟩

theorem variables_valid (pathMissing : path = none → PathVariable env pathSet)
    (rowsMissing : rows = none → RowsVariable env rowsSet) :
    Scan.Valid env ((parts path rows full).map Part.value) command.arguments := by
  intro a member missing bs set
  rcases variable_cases member with ⟨rfl, _⟩ | ⟨rfl, _⟩ | unset
  · exact CommandLine.known_reads (path_known (pathMissing ((names_given path rows full).1 missing))) set
  · exact CommandLine.known_reads (rows_known (rowsMissing ((names_given path rows full).2 missing))) set
  · rw [unset] at set
    cases set

theorem path_chosen (missing : path = none → PathVariable env pathSet) :
    ((path.map .path).or (Scan.environmentValue env command.positional)).or (Scan.defaultValue command.positional) =
      some (.path ((path.or pathSet).getD (encodeString defaultPath))) := by
  cases path with
  | some p => rfl
  | none =>
    rw [CommandLine.known_value (path_known (missing rfl))]
    cases pathSet <;> rfl

theorem rows_chosen (missing : rows = none → RowsVariable env rowsSet) :
    ((rows.map .count).or (Scan.environmentValue env command.options[0])).or (Scan.defaultValue command.options[0]) =
      some (.count ((rows.or rowsSet).getD 5)) := by
  cases rows with
  | some n => rfl
  | none =>
    rw [CommandLine.known_value (rows_known (missing rfl))]
    cases rowsSet with
    | some n => rfl
    | none => decide +kernel

theorem parse_given (gives : Gives words path rows full) (pathMissing : path = none → PathVariable env pathSet)
    (rowsMissing : rows = none → RowsVariable env rowsSet) :
    Arguments.parse env words =
      .ok ⟨(path.or pathSet).getD (encodeString defaultPath), (rows.or rowsSet).getD 5, full⟩ := by
  obtain ⟨order, perm, items⟩ := gives_items gives
  obtain ⟨m, parsed, lookups⟩ := CommandLine.parse_line_values command_clear items perm (parts_once path rows full)
    (variables_valid pathMissing rowsMissing)
  obtain ⟨pathGiven, rowsGiven, fullGiven⟩ := values_given path rows full
  have pathFound : m.lookup "path" = _ := lookups command.positional List.mem_cons_self
  have rowsFound : m.lookup "rows" = _ := lookups command.options[0] (List.mem_cons_of_mem _ (List.getElem_mem _))
  have fullFound : m.lookup "full" = _ := lookups command.options[1] (List.mem_cons_of_mem _ (List.getElem_mem _))
  rw [pathGiven, path_chosen pathMissing] at pathFound
  rw [rowsGiven, rows_chosen rowsMissing] at rowsFound
  rw [fullGiven] at fullFound
  rw [Arguments.parse, parsed]
  apply congrArg Except.ok
  simp only [Arguments.ofMatches, Matches.path, Matches.count, Matches.isGiven, pathFound, rowsFound, fullFound]
  cases full <;> rfl

def SameWhereMissing (env other : Environment) (path : Option Path) (rows : Option UInt64) : Prop :=
  (path = none → other.lookup "PARQUET_PREVIEW_PATH" = env.lookup "PARQUET_PREVIEW_PATH") ∧
    (rows = none → other.lookup "PARQUET_PREVIEW_ROWS" = env.lookup "PARQUET_PREVIEW_ROWS")

theorem variables_unread (same : SameWhereMissing env other path rows) :
    ∀ a ∈ command.arguments, a.name ∉ ((parts path rows full).map Part.value).map Prod.fst →
      Scan.variableOf other a = Scan.variableOf env a := by
  intro a member missing
  rcases variable_cases member with ⟨rfl, looked⟩ | ⟨rfl, looked⟩ | unset
  · rw [looked, looked, same.1 ((names_given path rows full).1 missing)]
  · rw [looked, looked, same.2 ((names_given path rows full).2 missing)]
  · rw [unset, unset]

theorem process_alike (parsed : command.parse other words = command.parse env words)
    (said : (command.parse other words).mapError (Problem.message command other) =
      (command.parse env words).mapError (Problem.message command env)) (fs : FileSystem) :
    process other words fs = process env words fs := by
  simp only [process, Arguments.parse, parsed]
  rw [parsed] at said
  cases understood : command.parse env words with
  | ok m => simp only [Except.map]
  | error p =>
    rw [understood, Except.mapError, Except.mapError] at said
    have text : p.message command other = p.message command env := Except.error.inj said
    simp only [Except.map, Outcome.ofProblem, text]

theorem process_unread (gives : Gives words path rows full) (same : SameWhereMissing env other path rows) :
    Arguments.parse other words = Arguments.parse env words ∧
      ∀ fs, process other words fs = process env words fs := by
  obtain ⟨order, perm, items⟩ := gives_items gives
  have names := perm.map Prod.fst
  obtain ⟨parsed, said⟩ := CommandLine.parse_line_unread command_clear items
    (names.nodup_iff.mpr (parts_once path rows full))
    fun a member missing => variables_unread same a member fun listed => missing (names.mem_iff.mpr listed)
  exact ⟨by rw [Arguments.parse, Arguments.parse, parsed], process_alike parsed said⟩

/-- What the line gives comes first, then what is set, then the default; and what is set for something that the line
gives is not looked at, whatever it is. -/
theorem line_before_environment (gives : Gives words path rows full) :
    (∀ pathSet rowsSet, (path = none → PathVariable env pathSet) → (rows = none → RowsVariable env rowsSet) →
      ∃ a, Arguments.parse env words = .ok a ∧
        a.path = (path.or pathSet).getD (encodeString defaultPath) ∧
        a.rows = (rows.or rowsSet).getD 5 ∧
        a.mode = if full then .full else .head a.rows.toNat) ∧
    ∀ other, SameWhereMissing env other path rows →
      Arguments.parse other words = Arguments.parse env words ∧
        ∀ fs, process other words fs = process env words fs :=
  ⟨fun _ _ pathMissing rowsMissing => ⟨_, parse_given gives pathMissing rowsMissing, rfl, rfl, rfl⟩,
    fun _ same => process_unread gives same⟩

theorem nonsense_rows_unread :
    Gives [encodeString "--full", encodeString "-n=007"] none (some 7) true ∧
      (∃ a, Arguments.parse [("PARQUET_PREVIEW_ROWS", encodeString "many"), ("PARQUET_PREVIEW_PATH", encodeString "b.csv")]
          [encodeString "--full", encodeString "-n=007"] = .ok a ∧
        a.path = encodeString "b.csv" ∧ a.rows = 7 ∧ a.mode = .full) ∧
      ∀ fs, process [("PARQUET_PREVIEW_PATH", encodeString "b.csv")] [encodeString "--full", encodeString "-n=007"] fs =
        process [("PARQUET_PREVIEW_ROWS", encodeString "many"), ("PARQUET_PREVIEW_PATH", encodeString "b.csv")]
          [encodeString "--full", encodeString "-n=007"] fs := by
  have worth : Worth 7 ['0', '0', '7'] := ⟨by decide, List.all_eq_true.mp (by decide), by decide⟩
  have gives : Gives [encodeString "--full", encodeString "-n=007"] none (some 7) true :=
    ⟨[(.full, [encodeString "--full"]), (.rows 7, [encodeString "-n=" ++ encode ['0', '0', '7']])], .swap _ _ _,
      List.forall_mem_cons.mpr ⟨.full, List.forall_mem_cons.mpr ⟨.shortEquals 7 _ worth, List.forall_mem_nil _⟩⟩,
      by decide +kernel⟩
  obtain ⟨understood, unread⟩ := @line_before_environment
    [("PARQUET_PREVIEW_ROWS", encodeString "many"), ("PARQUET_PREVIEW_PATH", encodeString "b.csv")] _ _ _ _ gives
  refine ⟨gives, ?_, (unread _ ⟨fun _ => by decide +kernel, fun missing => nomatch missing⟩).2⟩
  obtain ⟨a, parsed, path, rows, mode⟩ := understood (some (encodeString "b.csv")) none
    (fun _ => ⟨by decide +kernel, by decide +kernel⟩) (fun missing => nomatch missing)
  exact ⟨a, parsed, path, rows, mode⟩

end TablePeek.Preview
