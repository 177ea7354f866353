import TablePeek.Table

set_option autoImplicit false

namespace TablePeek

def Column.entriesAs? (t : ColumnType) (c : Column) : Option (List (Option t.Entry)) :=
  if h : c.type = t then some (h ▸ c.entries) else none

@[ext]
structure StoredTable where
  schema : Schema
  rows : Nat
  columns : List Column
  holds : schema.Holds rows columns

instance : DecidableEq StoredTable := fun _ _ => decidable_of_iff _ StoredTable.ext_iff.symm

namespace StoredTable

def batchRows : Nat := 1024

def front (s : StoredTable) : Batch :=
  ⟨s.schema, min batchRows s.rows, s.columns.map (Column.take batchRows), s.holds.map _ fun _ _ => Column.Fits.take _⟩

def behind (s : StoredTable) : StoredTable :=
  ⟨s.schema, s.rows - batchRows, s.columns.map (Column.drop batchRows), s.holds.map _ fun _ _ => Column.Fits.drop _⟩

def batches (s : StoredTable) : List Batch := if s.rows = 0 then [] else s.front :: s.behind.batches
termination_by s.rows
decreasing_by
  simp only [behind, batchRows]
  omega

theorem front_schema (s : StoredTable) : s.front.schema = s.schema := by rw [front]

theorem behind_schema (s : StoredTable) : s.behind.schema = s.schema := by rw [behind]

theorem batches_none (s : StoredTable) (none : s.rows = 0) : s.batches = [] := by rw [batches, if_pos none]

theorem batches_some (s : StoredTable) (some : s.rows ≠ 0) : s.batches = s.front :: s.behind.batches := by
  rw [batches, if_neg some]

def read (s : StoredTable) : Table := ⟨s.schema, s.batches⟩

end StoredTable

inductive WriteError where
  | incompatible (name : String) (field column : ColumnType)
  | rowCounts (expected found : Nat)
deriving DecidableEq, Repr

namespace WriteError

def context : WriteError → String
  | .incompatible _ _ _ => "writing record batch"
  | .rowCounts _ _ => "closing parquet writer"

def cause : WriteError → String
  | .incompatible name field column =>
    "Arrow: Incompatible type. Field '" ++ name ++ "' has type " ++ field.name ++ ", array has type " ++
      column.name
  | .rowCounts expected found =>
    "Parquet error: Incorrect number of rows, expected " ++ toString expected ++ " != " ++
      toString found ++ " rows"

def message (e : WriteError) : String := e.context ++ ": " ++ e.cause

end WriteError

namespace Table

-- Place by place, as far as there are both; names do not matter.
def checkColumns : Schema → List Column → Except WriteError Unit
  | f :: fields, c :: columns =>
    if c.type = f.type then checkColumns fields columns
    else .error (.incompatible f.name f.type c.type)
  | _, _ => .ok ()

def checkBatches (schema : Schema) : List Batch → Except WriteError Unit
  | [] => .ok ()
  | b :: rest =>
    match checkColumns schema b.columns with
    | .error e => .error e
    | .ok () => checkBatches schema rest

-- A field that is not nullable has blanks instead of nulls.
def joinColumn (f : Field) (columns : List (Option Column)) : Column :=
  let entries := columns.flatMap fun c => ((c.bind (Column.entriesAs? f.type)).getD [])
  if f.nullable then ⟨f.type, entries⟩ else Column.fillNulls ⟨f.type, entries⟩

def joinColumns : Schema → List (List Column) → List Column
  | [], _ => []
  | f :: fields, batches =>
    joinColumn f (batches.map List.head?) :: joinColumns fields (batches.map List.tail)

theorem join_column_type (f : Field) (parts : List (Option Column)) : (joinColumn f parts).type = f.type := by
  cases nullable : f.nullable <;> rw [joinColumn, nullable] <;> rfl

theorem join_column_nulls (f : Field) (parts : List (Option Column)) (listed : none ∈ (joinColumn f parts).entries) :
    f.nullable = true := by
  cases nullable : f.nullable with
  | true => rfl
  | false =>
    rw [joinColumn, nullable] at listed
    obtain ⟨_, _, same⟩ := List.mem_map.mp listed
    cases same

theorem join_columns_hold {rows : Nat} (schema : Schema) (parts : List (List Column))
    (equal : ∀ c ∈ joinColumns schema parts, c.length = rows) : schema.Holds rows (joinColumns schema parts) := by
  induction schema generalizing parts with
  | nil => exact .nil
  | cons f fields ih =>
    rw [joinColumns] at equal ⊢
    obtain ⟨first, others⟩ := List.forall_mem_cons.mp equal
    exact .cons ⟨join_column_type f _, first, join_column_nulls f _⟩ (ih _ others)

def commonLength : (columns : List Column) → Except WriteError { rows : Nat // ∀ c ∈ columns, c.length = rows }
  | [] => .ok ⟨0, List.forall_mem_nil _⟩
  | c :: rest =>
    match other : rest.find? fun d => d.length ≠ c.length with
    | none => .ok ⟨c.length, List.forall_mem_cons.mpr ⟨rfl, by simpa using other⟩⟩
    | some d => .error (.rowCounts c.length d.length)

-- Batches without rows leave no trace.
def write (t : Table) : Except WriteError StoredTable :=
  let filled := t.batches.filter fun b => b.rows ≠ 0
  match checkBatches t.schema filled with
  | .error e => .error e
  | .ok () =>
    let columns := joinColumns t.schema (filled.map Batch.columns)
    (commonLength columns).map fun ⟨rows, equal⟩ => ⟨t.schema, rows, columns, join_columns_hold _ _ equal⟩

end Table

end TablePeek
