import TablePeek.Proofs.AccessLog.Texts
import TablePeek.Proofs.CommandLine.Sources
import TablePeek.Proofs.Document.Shape
import TablePeek.Proofs.Files.Holding
import TablePeek.Proofs.Table.Trips

set_option autoImplicit false

namespace TablePeek

open CommandLine (Environment)

namespace FileSystem

def SameFile (fs : FileSystem) (p q : Path) : Prop := ∃ place, fs.locateNew p = .ok place ∧ fs.locateNew q = .ok place

end FileSystem

namespace SampleWriter

structure Request where
  words : List Utf8.Bytes
  asked : Arguments
deriving DecidableEq, Repr

def Arguments.table (a : Arguments) : Table := AccessLog.table a.rows.toNat a.seed

-- The words are understood, the file will be taken for a columnar one, and it can be made where it is to stand.
structure Request.Possible (r : Request) (fs : FileSystem) : Prop where
  words : Asks r.words r.asked
  columnar : Format.ofPath r.asked.output = .parquet
  directories : (makeParent fs r.asked.output).2 = .ok ()
  creatable : ∃ place, (makeParent fs r.asked.output).1.locateNew r.asked.output = .ok place

def runAll (env : Environment) (fs : FileSystem) : List (List Utf8.Bytes) → FileSystem × List Outcome
  | [] => (fs, [])
  | words :: rest =>
    let (fs, outcome) := process env words fs
    let (fs, outcomes) := runAll env fs rest
    (fs, outcome :: outcomes)

def AllPossible (env : Environment) (fs : FileSystem) : List Request → Prop
  | [] => True
  | r :: rest => r.Possible fs ∧ AllPossible env (process env r.words fs).1 rest

variable {fs : FileSystem} {r : Request} {place other : Location} {p : Path} {c : Content}

theorem table_written (a : Arguments) :
    ∃ s, a.table.write = .ok s ∧ s.schema = a.table.schema ∧ s.rowList = a.table.rowList :=
  Table.write_matching (List.cons_ne_nil _ _) (access_log_well_formed a.rows.toNat a.seed).matching

-- What one possible run does: it succeeds, its file holds the log, and all other files hold what they held.
theorem possible_run (env : Environment) (possible : r.Possible fs) {s : StoredTable} (written : r.asked.table.write = .ok s) :
    ∃ fs' place, process env r.words fs = (fs', ⟨0, Utf8.encodeString (success r.asked), []⟩) ∧
      fs'.Holds r.asked.output place (.stored s) ∧
      ∀ p other c, fs.Holds p other c → fs'.Holds p other (if other = place then .stored s else c) := by
  obtain ⟨place, leads⟩ := possible.creatable
  have made : makeParent fs r.asked.output = ((makeParent fs r.asked.output).1, .ok ()) :=
    Prod.ext rfl possible.directories
  have extended := make_parent_extends fs r.asked.output
  generalize (makeParent fs r.asked.output).1 = around at leads made extended
  obtain ⟨emptied, emptyHolds⟩ := FileSystem.write_holds leads (.bytes [])
  obtain ⟨full, fullHolds⟩ := FileSystem.write_holds emptyHolds.leads (.stored s)
  have done : process env r.words fs = (((around.set place (.file (.bytes []))).set place (.file (.stored s))),
      ⟨0, Utf8.encodeString (success r.asked), []⟩) := by
    rw [Arguments.table] at written
    simp only [process, parse_asked possible.words env, run, made, writeTable, emptied, written, replace_written full]
  refine ⟨_, place, done, fullHolds, fun p other c holds => ?_⟩
  have after := FileSystem.set_holds emptyHolds.leads (.stored s)
    (FileSystem.set_holds leads (.bytes []) (FileSystem.holds_extended extended holds))
  by_cases same : other = place
  · rwa [if_pos same] at after ⊢
  · rw [if_neg same, if_neg same] at after
    rwa [if_neg same]

def filesAfter (env : Environment) (fs : FileSystem) (requests : List Request) : FileSystem :=
  (runAll env fs (requests.map Request.words)).1

variable {env : Environment}

theorem files_after_first (requests : List Request) :
    filesAfter env fs (r :: requests) = filesAfter env (process env r.words fs).1 requests := rfl

theorem runs_succeed (requests : List Request) (possible : AllPossible env fs requests) :
    (runAll env fs (requests.map Request.words)).2 =
      requests.map fun r => ⟨0, Utf8.encodeString (success r.asked), []⟩ := by
  induction requests generalizing fs with
  | nil => rfl
  | cons r rest ih =>
    obtain ⟨s, written, _⟩ := table_written r.asked
    obtain ⟨fs', place, done, _⟩ := possible_run env possible.1 written
    have later := ih possible.2
    rw [done] at later
    simp only [List.map_cons, runAll, done, later]

theorem runs_keep (requests : List Request) (possible : AllPossible env fs requests) (holds : fs.Holds p place c) :
    ∃ d, (filesAfter env fs requests).Holds p place d ∧
      ((∀ r ∈ requests, (filesAfter env fs requests).locateNew r.asked.output ≠ .ok place) → d = c) := by
  induction requests generalizing fs p place c with
  | nil => exact ⟨c, holds, fun _ => rfl⟩
  | cons r rest ih =>
    obtain ⟨s, written, _⟩ := table_written r.asked
    obtain ⟨fs', own, done, ownHolds, others⟩ := possible_run env possible.1 written
    have later := possible.2
    rw [done] at later
    obtain ⟨d, stays, unwritten⟩ := ih later (others p place c holds)
    obtain ⟨_, ownStays, _⟩ := ih later ownHolds
    rw [files_after_first, done]
    refine ⟨d, stays, fun untouched => ?_⟩
    rw [List.forall_mem_cons] at untouched
    have apart : place ≠ own := fun same => untouched.1 (same ▸ ownStays.leads)
    rw [unwritten untouched.2, if_neg apart]

theorem run_stays {requests : List Request} (before later : List Request) (possible : AllPossible env fs requests)
    (order : requests = before ++ r :: later) :
    ∃ place d, (filesAfter env fs requests).Holds r.asked.output place d ∧ ∀ s, r.asked.table.write = .ok s →
      (∀ o ∈ later, (filesAfter env fs requests).locateNew o.asked.output ≠ .ok place) → d = .stored s := by
  induction before generalizing fs requests with
  | nil =>
    subst order
    obtain ⟨s, written, _⟩ := table_written r.asked
    obtain ⟨fs', place, done, holds, _⟩ := possible_run env possible.1 written
    have rest := possible.2
    rw [done] at rest
    obtain ⟨d, stays, unwritten⟩ := runs_keep later rest holds
    rw [List.nil_append, files_after_first, done]
    refine ⟨place, d, stays, fun t also untouched => ?_⟩
    rw [unwritten untouched, Except.ok.inj (written.symm.trans also)]
  | cons first before ih =>
    subst order
    rw [List.cons_append, files_after_first]
    exact ih possible.2 rfl

theorem each_possible {requests : List Request} (possible : AllPossible env fs requests) (member : r ∈ requests) :
    ∃ fs', r.Possible fs' := by
  induction requests generalizing fs with
  | nil => cases member
  | cons first rest ih =>
    rcases List.mem_cons.mp member with rfl | later
    · exact ⟨fs, possible.1⟩
    · exact ih possible.2 later

end SampleWriter

section Shown

variable {t u : Table} {mode : Mode}

theorem document_of_rows (mode : Mode) (good : t.WellFormed) (fits : u.WellFormed) (names : u.columnNames = t.columnNames)
    (rows : u.rowList = t.rowList) : Document.toText u mode = Document.toText t mode := by
  have count : u.numRows = t.numRows := by rw [← Table.row_list_length, rows, Table.row_list_length]
  have texts : u.textsInView mode = t.textsInView mode := by rw [Table.textsInView, Table.textsInView, rows, count]
  rw [Document.toText, Document.toText, Document.pieces, Document.pieces, render_of_rows fits, render_of_rows good, names,
    texts]

theorem preview_held {env : Environment} {fs : FileSystem} {p : Path} {place : Location} {s : StoredTable}
    {words : List Utf8.Bytes} (holds : fs.Holds p place (.stored s)) (columnar : Format.ofPath p = .parquet)
    (asks : Preview.Asks words p mode) (noPath : env.lookup "PARQUET_PREVIEW_PATH" = none)
    (noRows : env.lookup "PARQUET_PREVIEW_ROWS" = none) :
    Preview.process env words fs = ⟨0, Utf8.encode (Document.toText s.read mode), []⟩ := by
  obtain ⟨a, parsed, path, shows⟩ := Preview.parse_asked asks noPath noRows
  have opened : Load.opened p (.ok (.file (.stored s))) = .ok s.read := by
    rw [Load.opened, columnar]
    rfl
  simp only [Preview.process, parsed, Preview.outcome, Preview.display, path, FileSystem.holds_found holds, opened, shows,
    Document.print_unlimited]

def Grid.rowLine (ws : List Nat) (cells : List String) : Grid.Line := '|' :: Grid.barred (ws.zip (cells.map String.toList))

theorem log_document (rows : Nat) (seed : UInt64) (mode : Mode) :
    let t := AccessLog.table rows seed
    ∃ ws : List Nat, ws.length = 8 ∧ List.splitOn '\n' (Document.toText t mode) =
      Document.divider :: Grid.border ws :: Grid.rowLine ws t.columnNames :: Grid.border ws ::
        ((t.textsInView mode).map (Grid.rowLine ws) ++ [Grid.border ws, [], Document.divider, []]) := by
  intro t
  have good : t.WellFormed := access_log_well_formed rows seed
  have readable := readable_grid good (List.cons_ne_nil _ _) (AccessLog.table_legible rows seed mode)
  have grid : t.grid mode = ⟨t.columnNames, t.textsInView mode⟩ := grid_of_rows mode (fitting_names good)
  have free := readable.lines_plain (by decide)
  have lines := readable.lines (by decide)
  have split := Document.split_document t mode (grid ▸ free)
  refine ⟨(Grid.mk t.columnNames (t.textsInView mode)).widths, Grid.widths_length readable.rectangular, ?_⟩
  rw [split, grid, lines]
  simp [Grid.rowLine, Grid.Readable.cells]

end Shown

theorem last_with {α : Type} {P : α → Prop} (xs : List α) {x : α} (member : x ∈ xs) (holds : P x) :
    ∃ before y after, xs = before ++ y :: after ∧ P y ∧ ∀ z ∈ after, ¬ P z := by
  induction xs generalizing x with
  | nil => cases member
  | cons first rest ih =>
    by_cases later : ∃ z ∈ rest, P z
    · obtain ⟨z, inRest, holdsLater⟩ := later
      obtain ⟨before, y, after, rfl, last⟩ := ih inRest holdsLater
      exact ⟨first :: before, y, after, rfl, last⟩
    · rcases List.mem_cons.mp member with rfl | inRest
      · exact ⟨[], x, rest, rfl, holds, fun z inside holdsLater => later ⟨z, inside, holdsLater⟩⟩
      · exact absurd ⟨x, inRest, holds⟩ later

namespace SampleWriter

/-- Possible runs of the sample command all succeed, and whichever file one of them wrote, a preview of it prints the
log of the last run that wrote this file, with as many rows as asked for and there are and with the eight names
over them. -/
theorem samples_are_shown {sampleEnv env : Environment} {fs : FileSystem} {requests : List Request}
    (possible : AllPossible sampleEnv fs requests) (noPath : env.lookup "PARQUET_PREVIEW_PATH" = none)
    (noRows : env.lookup "PARQUET_PREVIEW_ROWS" = none) :
    (runAll sampleEnv fs (requests.map Request.words)).2 =
        requests.map (fun r => ⟨0, Utf8.encodeString (success r.asked), []⟩) ∧
      let files := (runAll sampleEnv fs (requests.map Request.words)).1
      ∀ p ∈ requests.map (fun r => r.asked.output), ∃ before r later, requests = before ++ r :: later ∧
        files.SameFile r.asked.output p ∧ (∀ o ∈ later, ¬ files.SameFile o.asked.output p) ∧
        ∀ words mode, Preview.Asks words p mode →
          let t := AccessLog.table r.asked.rows.toNat r.asked.seed
          Preview.process env words files = ⟨0, Utf8.encode (Document.toText t mode), []⟩ ∧
          (t.textsInView mode).length = mode.limit r.asked.rows.toNat ∧
          ∃ ws : List Nat, ws.length = 8 ∧ List.splitOn '\n' (Document.toText t mode) =
            Document.divider :: Grid.border ws ::
              Grid.rowLine ws ["account_id", "client_ip", "method", "path", "status_code", "latency_ms", "user_agent",
                "timestamp"] :: Grid.border ws ::
              ((t.textsInView mode).map (Grid.rowLine ws) ++ [Grid.border ws, [], Document.divider, []]) := by
  refine ⟨runs_succeed requests possible, fun p member => ?_⟩
  obtain ⟨written, inRuns, rfl⟩ := List.mem_map.mp member
  obtain ⟨_, possibleThen⟩ := each_possible possible inRuns
  obtain ⟨before₀, later₀, order₀⟩ := List.append_of_mem inRuns
  obtain ⟨place, d, holds, _⟩ := run_stays before₀ later₀ possible order₀
  obtain ⟨before, r, later, order, leads, last⟩ :=
    last_with (P := fun r => (filesAfter sampleEnv fs requests).locateNew r.asked.output = .ok place) requests inRuns holds.leads
  obtain ⟨own, e, ownHolds, kept⟩ := run_stays before later possible order
  obtain rfl : own = place := Except.ok.inj (ownHolds.leads.symm.trans leads)
  obtain ⟨s, stored, schema, rows⟩ := table_written r.asked
  obtain rfl : d = .stored s := (FileSystem.holds_one holds ownHolds).trans (kept s stored last)
  have apart : ∀ o ∈ later, ¬ (filesAfter sampleEnv fs requests).SameFile o.asked.output written.asked.output := by
    rintro o inLater ⟨other, otherLeads, writtenLeads⟩
    obtain rfl : other = own := Except.ok.inj (writtenLeads.symm.trans holds.leads)
    exact last o inLater otherLeads
  refine ⟨before, r, later, order, ⟨own, leads, holds.leads⟩, apart, fun words mode asks => ⟨?_, ?_, ?_⟩⟩
  · have names : s.read.columnNames = r.asked.table.columnNames := congrArg (List.map Field.name) schema
    have same := document_of_rows mode (access_log_well_formed r.asked.rows.toNat r.asked.seed)
      (read_well_formed s) names ((StoredTable.read_rows s).trans rows)
    rw [← same]
    exact preview_held holds possibleThen.columnar asks noPath noRows
  · rw [texts_in_view_length, AccessLog.table_num_rows]
  · exact log_document r.asked.rows.toNat r.asked.seed mode

theorem empty_log_over_another :
    let word := Utf8.encodeString
    let p := word "d/t.parquet"
    let first : Request := ⟨[p, word "-n", word "1"], ⟨p, 1, 42⟩⟩
    let second : Request := ⟨[word "--seed=7", p, word "-n0"], ⟨p, 0, 7⟩⟩
    let requests := [first, second]
    let files := (runAll [] (.empty []) (requests.map Request.words)).1
    AllPossible [] (.empty []) requests ∧ Preview.Asks [p, word "--full"] p .full ∧
      Preview.process [] [p, word "--full"] files = ⟨0, Utf8.encode (Document.toText (AccessLog.table 0 7) .full), []⟩ := by
  intro word p first second requests files
  have standing : ∀ c : CommandLine.Command, CommandLine.Line.Item c (c.positional.name, .path p) [p] := fun c =>
    .standing p (by decide +kernel) (by decide +kernel)
  have rows : command.options[0] ∈ command.options := List.getElem_mem (by decide)
  have seed : command.options[1] ∈ command.options := List.getElem_mem (by decide)
  have full : Preview.command.options[1] ∈ Preview.command.options := List.getElem_mem (by decide)
  have firstAsks : Asks first.words first.asked := by
    have items := CommandLine.Line.Items.more (standing command) (.more (.short _ rows rfl 'n' rfl 1 ['1'] rfl) .none)
    exact ⟨some p, some 1, none, _, .refl _, items, rfl⟩
  have secondAsks : Asks second.words second.asked := by
    have items := CommandLine.Line.Items.more (.longEquals _ seed rfl 7 ['7'] rfl)
      (.more (standing command) (.more (.shortJoined _ rows rfl 'n' rfl 0 ['0'] rfl) .none))
    exact ⟨some p, some 0, some 7, _, by decide, items, rfl⟩
  have previewAsks : Preview.Asks [p, word "--full"] p .full := by
    have items := CommandLine.Line.Items.more (standing Preview.command) (.more (.flag _ full rfl) .none)
    exact ⟨some p, none, true, _, .refl _, items, rfl, rfl⟩
  have possible : AllPossible [] (.empty []) requests :=
    ⟨⟨firstAsks, by decide +kernel, by decide +kernel, [word "t.parquet", word "d"], by decide +kernel⟩,
      ⟨secondAsks, by decide +kernel, by decide +kernel, [word "t.parquet", word "d"], by decide +kernel⟩, trivial⟩
  have unset : ∀ name, ([] : Environment).lookup name = none := fun _ => rfl
  have again : files.SameFile second.asked.output p := ⟨[word "t.parquet", word "d"], by decide +kernel, by decide +kernel⟩
  obtain ⟨_, shown⟩ := samples_are_shown possible (unset _) (unset _)
  obtain ⟨before, r, later, order, _, last, preview⟩ := shown p List.mem_cons_self
  have overwritten : r = second := by
    match before, order with
    | [], order =>
      obtain ⟨_, rfl⟩ := List.cons.inj order
      exact absurd again (last second (List.mem_singleton_self second))
    | [_], order => exact ((List.cons.inj (List.cons.inj order).2).1).symm
    | _ :: _ :: _, order => simp [requests] at order
  have printed := (preview _ _ previewAsks).1
  rw [overwritten] at printed
  exact ⟨possible, previewAsks, printed⟩

end SampleWriter

end TablePeek
