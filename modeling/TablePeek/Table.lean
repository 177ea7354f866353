import TablePeek.Inference

set_option autoImplicit false

namespace TablePeek

structure Field where
  name : String
  type : ColumnType
  nullable : Bool
deriving DecidableEq, Repr

abbrev Schema := List Field

structure Column.Fits (rows : Nat) (f : Field) (c : Column) : Prop where
  type : c.type = f.type
  length : c.length = rows
  nulls : none ∈ c.entries → f.nullable = true

instance (rows : Nat) (f : Field) (c : Column) : Decidable (c.Fits rows f) :=
  decidable_of_iff (c.type = f.type ∧ c.length = rows ∧ (none ∈ c.entries → f.nullable = true))
    ⟨fun ⟨type, length, nulls⟩ => ⟨type, length, nulls⟩, fun ⟨type, length, nulls⟩ => ⟨type, length, nulls⟩⟩

structure Schema.Holds (schema : Schema) (rows : Nat) (columns : List Column) : Prop where
  count : columns.length = schema.length
  each : ∀ p ∈ schema.zip columns, p.2.Fits rows p.1

instance (schema : Schema) (rows : Nat) (columns : List Column) : Decidable (schema.Holds rows columns) :=
  decidable_of_iff (columns.length = schema.length ∧ ∀ p ∈ schema.zip columns, p.2.Fits rows p.1)
    ⟨fun ⟨count, each⟩ => ⟨count, each⟩, fun ⟨count, each⟩ => ⟨count, each⟩⟩

@[ext]
structure Batch where
  schema : Schema
  rows : Nat
  columns : List Column
  holds : schema.Holds rows columns
deriving DecidableEq

structure Table where
  schema : Schema
  batches : List Batch
deriving DecidableEq

namespace Column

variable {rows : Nat} {f : Field} {c : Column}

theorem Fits.take (n : Nat) (fits : c.Fits rows f) : (c.take n).Fits (min n rows) f where
  type := fits.type
  length := fits.length ▸ List.length_take
  nulls listed := fits.nulls (List.mem_of_mem_take listed)

theorem Fits.drop (n : Nat) (fits : c.Fits rows f) : (c.drop n).Fits (rows - n) f where
  type := fits.type
  length := fits.length ▸ List.length_drop
  nulls listed := fits.nulls (List.mem_of_mem_drop listed)

theorem fits_none (f : Field) : Fits 0 f ⟨f.type, []⟩ where
  type := rfl
  length := rfl
  nulls listed := absurd listed List.not_mem_nil

theorem fits_own (name : String) (c : Column) : c.Fits c.length ⟨name, c.type, c.hasNull⟩ where
  type := rfl
  length := rfl
  nulls listed := List.any_eq_true.mpr ⟨none, listed, rfl⟩

end Column

namespace Schema.Holds

variable {rows : Nat} {schema : Schema} {columns : List Column}

theorem nil : Schema.Holds [] rows [] where
  count := rfl
  each _ member := absurd member List.not_mem_nil

theorem cons {f : Field} {c : Column} (first : c.Fits rows f) (others : schema.Holds rows columns) :
    Schema.Holds (f :: schema) rows (c :: columns) where
  count := congrArg (· + 1) others.count
  each := List.forall_mem_cons.mpr ⟨first, others.each⟩

theorem map {kept : Nat} (cut : Column → Column) (fits : ∀ f c, c.Fits rows f → (cut c).Fits kept f)
    (holds : schema.Holds rows columns) : schema.Holds kept (columns.map cut) where
  count := (List.length_map cut).trans holds.count
  each := by
    rw [List.zip_map_right, List.forall_mem_map]
    exact fun p member => fits p.1 p.2 (holds.each p member)

theorem made {α : Type} (field : α → Field) (column : α → Column) (xs : List α)
    (fits : ∀ x ∈ xs, (column x).Fits rows (field x)) : Schema.Holds (xs.map field) rows (xs.map column) where
  count := by rw [List.length_map, List.length_map]
  each := by
    rw [List.zip_map', List.forall_mem_map]
    exact fits

end Schema.Holds

inductive BatchError where
  | unequalLengths
deriving DecidableEq, Repr

def BatchError.message : BatchError → String
  | .unequalLengths => "Invalid argument error: all columns in a record batch must have the same length"

def Field.ofColumn (name : String) (c : Column) : Field := ⟨name, c.type, c.hasNull⟩

namespace Batch

def ofColumns (columns : List (String × Column)) : Except BatchError Batch :=
  let rows := (columns.head?.map fun c => c.2.length).getD 0
  if equal : ∀ c ∈ columns, c.2.length = rows then
    .ok ⟨columns.map fun c => .ofColumn c.1 c.2, rows, columns.map Prod.snd,
      .made _ _ columns fun c member => equal c member ▸ Column.fits_own c.1 c.2⟩
  else .error .unequalLengths

def empty (schema : Schema) : Batch where
  schema
  rows := 0
  columns := schema.map fun f => ⟨f.type, []⟩
  holds := by simpa using Schema.Holds.made id _ schema fun f _ => Column.fits_none f

def take (n : Nat) (b : Batch) : Batch :=
  ⟨b.schema, min n b.rows, b.columns.map (Column.take n), b.holds.map _ fun _ _ => Column.Fits.take n⟩

end Batch

namespace Table

def empty : Table := ⟨[], []⟩

def ofColumns (columns : List (String × Column)) : Except BatchError Table :=
  if columns.isEmpty then .ok empty
  else (Batch.ofColumns columns).map fun b => ⟨b.schema, [b]⟩

def countRows : List Batch → Nat
  | [] => 0
  | b :: rest => b.rows + countRows rest

def numRows (t : Table) : Nat := countRows t.batches

def numColumns (t : Table) : Nat := t.schema.length

def columnNames (t : Table) : List String := t.schema.map Field.name

def isEmpty (t : Table) : Bool := t.numRows = 0

-- Batches up to the one that completes `n` rows, which is cut to fit.
def takeRows : Nat → List Batch → List Batch
  | _, [] => []
  | 0, _ => []
  | n + 1, b :: rest => b.take (n + 1) :: takeRows (n + 1 - min (n + 1) b.rows) rest

def head (t : Table) (n : Nat) : Table := ⟨t.schema, takeRows n t.batches⟩

-- Puts the batches of another table behind, without a look at their fields.
def append (t other : Table) : Table := ⟨t.schema, t.batches ++ other.batches⟩

end Table

end TablePeek
