import Mathlib.Data.List.Forall2
import TablePeek.Load
import TablePeek.Proofs.Files
import TablePeek.Proofs.Table.Rows
import TablePeek.SampleWriter

set_option autoImplicit false

namespace TablePeek

structure Batch.Fits (schema : Schema) (b : Batch) : Prop where
  fields : b.schema = schema
  columns : List.Forall₂ (Column.Fits b.rows) schema b.columns

structure Table.WellFormed (t : Table) : Prop where
  batches : ∀ b ∈ t.batches, b.Fits t.schema
  rows : t.numRows = (t.batches.map Batch.rows).foldr (· + ·) 0

theorem count_rows_sum (batches : List Batch) :
    Table.countRows batches = (batches.map Batch.rows).foldr (· + ·) 0 := by
  induction batches with
  | nil => rfl
  | cons b rest ih => rw [Table.countRows, ih, List.map_cons, List.foldr_cons]

theorem Table.well_formed_of_schemas (t : Table) (same : ∀ b ∈ t.batches, b.schema = t.schema) : t.WellFormed where
  batches b member := ⟨same b member, same b member ▸ b.holds.paired⟩
  rows := count_rows_sum t.batches

theorem head_well_formed {t : Table} (n : Nat) (good : t.WellFormed) : (t.head n).WellFormed := by
  apply Table.well_formed_of_schemas
  intro b member
  obtain ⟨c, inTable, k, rfl⟩ := Table.take_rows_cut n t.batches b member
  exact (good.batches c inTable).fields

theorem of_columns_well_formed {columns : List (String × Column)} {t : Table}
    (built : Table.ofColumns columns = .ok t) : t.WellFormed := by
  apply Table.well_formed_of_schemas
  rw [Table.ofColumns] at built
  split at built
  · obtain rfl := Except.ok.inj built
    exact List.forall_mem_nil _
  · obtain ⟨b, _, rfl⟩ := map_ok built
    exact List.forall_mem_singleton.mpr rfl

section Load

theorem table_of_well_formed {columns : List (String × List Cell)} {t : Table}
    (built : Load.tableOf columns = .ok t) : t.WellFormed :=
  of_columns_well_formed (map_error_ok built)

theorem csv_bytes_well_formed {bs : Utf8.Bytes} {t : Table} (loaded : Load.csvBytes bs = .ok t) : t.WellFormed := by
  rw [Load.csvBytes] at loaded
  split at loaded
  · cases loaded
  · exact table_of_well_formed loaded

theorem json_text_well_formed {text : List Char} {t : Table} (loaded : Load.jsonText text = .ok t) :
    t.WellFormed := by
  rw [Load.jsonText] at loaded
  split at loaded
  · cases loaded
  · split at loaded
    · cases loaded
    · exact table_of_well_formed loaded

theorem csv_well_formed {found : Node} {t : Table} (loaded : Load.csv found = .ok t) : t.WellFormed := by
  unfold Load.csv at loaded
  split at loaded
  · cases loaded
  · exact csv_bytes_well_formed loaded
  · cases loaded

theorem json_well_formed {found : Node} {t : Table} (loaded : Load.json found = .ok t) : t.WellFormed := by
  unfold Load.json at loaded
  split at loaded
  · cases loaded
  · split at loaded
    · cases loaded
    · exact json_text_well_formed loaded
  · cases loaded

theorem text_file_well_formed {fs : FileSystem} {p : Path} {t : Table} (textual : Format.ofPath p ≠ .parquet)
    (loaded : fs.load p = .ok t) : t.WellFormed := by
  unfold FileSystem.load Load.opened at loaded
  split at loaded
  · cases loaded
  · cases format : Format.ofPath p with
    | csv =>
      rw [format] at loaded
      exact csv_well_formed loaded
    | json =>
      rw [format] at loaded
      exact json_well_formed loaded
    | parquet => exact absurd format textual

theorem stored_file_read {fs : FileSystem} {p : Path} {s : StoredTable} {t : Table}
    (found : fs.find p = .ok (.file (.stored s))) (loaded : fs.load p = .ok t) : t = s.read := by
  rw [FileSystem.load, found, Load.opened] at loaded
  cases format : Format.ofPath p with
  | parquet =>
    rw [format] at loaded
    exact (Except.ok.inj loaded).symm
  | _ =>
    rw [format] at loaded
    cases loaded

end Load

theorem access_log_well_formed (rows : Nat) (seed : UInt64) : (AccessLog.table rows seed).WellFormed :=
  Table.well_formed_of_schemas _ (List.forall_mem_singleton.mpr rfl)

theorem empty_log_well_formed : AccessLog.emptyTable.WellFormed :=
  Table.well_formed_of_schemas _ (List.forall_mem_nil _)

section Stored

theorem StoredTable.batches_schema (s : StoredTable) : ∀ b ∈ s.batches, b.schema = s.schema := by
  induction s using StoredTable.batches.induct with
  | case1 s none =>
    rw [s.batches_none none]
    exact List.forall_mem_nil _
  | case2 s some ih =>
    rw [s.behind_schema] at ih
    rw [s.batches_some some, List.forall_mem_cons]
    exact ⟨s.front_schema, ih⟩

theorem read_well_formed (s : StoredTable) : s.read.WellFormed := by
  apply Table.well_formed_of_schemas
  exact s.batches_schema

theorem write_table_stores {fs fs' : FileSystem} {p : Path} {t : Table}
    (done : SampleWriter.writeTable fs p t = (fs', .ok ())) :
    ∃ s, t.write = .ok s ∧ fs'.find p = .ok (.file (.stored s)) := by
  rw [SampleWriter.writeTable] at done
  split at done
  · cases done
  · rename_i emptied made
    split at done
    · cases done
    · rename_i s stored
      obtain ⟨full, again⟩ := FileSystem.write_again made (.stored s)
      rw [SampleWriter.replace_written again] at done
      obtain ⟨rfl, -⟩ := Prod.mk.inj done
      exact ⟨s, stored, FileSystem.find_written again⟩

end Stored

inductive Reachable : Table → Prop where
  | loaded {fs : FileSystem} {p : Path} {t : Table} (textual : Format.ofPath p ≠ .parquet)
      (ok : fs.load p = .ok t) : Reachable t
  | built {columns : List (String × List Cell)} {t : Table}
      (ok : Table.ofColumns (columns.map fun c => (c.1, .infer c.2)) = .ok t) : Reachable t
  | accessLog (rows : Nat) (seed : UInt64) : Reachable (AccessLog.table rows seed)
  | emptyLog : Reachable AccessLog.emptyTable
  | head {t : Table} (reached : Reachable t) (n : Nat) : Reachable (t.head n)
  | stored {t t' : Table} {s : StoredTable} {fs : FileSystem} {p : Path} (reached : Reachable t)
      (written : t.write = .ok s) (found : fs.find p = .ok (.file (.stored s))) (ok : fs.load p = .ok t') :
      Reachable t'
  | reloaded {t t' : Table} {fs fs' : FileSystem} {p : Path} (reached : Reachable t)
      (done : SampleWriter.writeTable fs p t = (fs', .ok ())) (ok : fs'.load p = .ok t') : Reachable t'

theorem stored_well_formed {t : Table} {s : StoredTable} {fs : FileSystem} {p : Path}
    (found : fs.find p = .ok (.file (.stored s))) (loaded : fs.load p = .ok t) : t.WellFormed := by
  rw [stored_file_read found loaded]
  exact read_well_formed s

/-- Every table that can be reached holds only batches that fit its schema. -/
theorem reachable_well_formed {t : Table} (reached : Reachable t) : t.WellFormed := by
  induction reached with
  | loaded textual ok => exact text_file_well_formed textual ok
  | built ok => exact of_columns_well_formed ok
  | accessLog rows seed => exact access_log_well_formed rows seed
  | emptyLog => exact empty_log_well_formed
  | head _ n good => exact head_well_formed n good
  | stored _ _ found ok _ => exact stored_well_formed found ok
  | reloaded _ done ok _ =>
    obtain ⟨s, _, found⟩ := write_table_stores done
    exact stored_well_formed found ok

theorem reloaded_head_well_formed :
    let s : StoredTable := ⟨[⟨"n", .int64, true⟩], 2, [⟨.int64, [some 1, none]⟩], by decide⟩
    Reachable (s.read.head 1) ∧ (s.read.head 1).WellFormed := by
  intro s
  have made : Table.ofColumns ([("n", [.integer 1, .null])].map fun c => (c.1, .infer c.2)) =
      .ok ⟨s.schema, [⟨s.schema, 2, s.columns, s.holds⟩]⟩ := rfl
  have done : SampleWriter.writeTable (.empty []) (Utf8.encodeString "t.parquet")
      ⟨s.schema, [⟨s.schema, 2, s.columns, s.holds⟩]⟩ = (_, .ok ()) := rfl
  have reloaded : Reachable s.read := .reloaded (.built made) done rfl
  exact ⟨reloaded.head 1, reachable_well_formed (reloaded.head 1)⟩

end TablePeek
