import TablePeek.Load

set_option autoImplicit false

namespace TablePeek

theorem infer_length (cells : List Cell) : (Column.infer cells).length = cells.length := by
  rw [Column.infer]
  split <;> simp [Column.length]

namespace Batch

variable {rows : Nat} {columns : List (String × List Cell)}

def ofCells (equal : ∀ c ∈ columns, c.2.length = rows) : Batch where
  schema := columns.map fun c => .ofColumn c.1 (.infer c.2)
  rows
  columns := columns.map fun c => .infer c.2
  holds := .made _ _ columns fun c member =>
    (infer_length c.2).trans (equal c member) ▸ Column.fits_own c.1 (.infer c.2)

theorem of_cells_columns (equal : ∀ c ∈ columns, c.2.length = rows) :
    (ofCells equal).columns = columns.map fun c => .infer c.2 := rfl

theorem of_cells_names (equal : ∀ c ∈ columns, c.2.length = rows) :
    (ofCells equal).schema.map Field.name = columns.map Prod.fst := by
  simp [ofCells, Field.ofColumn, Function.comp_def]

theorem of_equal_columns (nonempty : columns ≠ []) (equal : ∀ c ∈ columns, c.2.length = rows) :
    Batch.ofColumns (columns.map fun c => (c.1, .infer c.2)) = .ok (ofCells equal) := by
  have inferred : ∀ c ∈ columns.map fun c => (c.1, Column.infer c.2), c.2.length = rows := by
    rw [List.forall_mem_map]
    exact fun c member => (infer_length c.2).trans (equal c member)
  have head : (((columns.map fun c => (c.1, Column.infer c.2)).head?.map fun c => c.2.length).getD 0) = rows := by
    obtain ⟨first, rest, rfl⟩ := List.exists_cons_of_ne_nil nonempty
    exact inferred _ List.mem_cons_self
  rw [ofColumns]
  simp only [head]
  rw [dif_pos inferred]
  exact congrArg Except.ok (Batch.ext (by simp [ofCells, Function.comp_def]) rfl (by simp [ofCells, Function.comp_def]))

end Batch

theorem table_of_cells {rows : Nat} {columns : List (String × List Cell)} (nonempty : columns ≠ [])
    (equal : ∀ c ∈ columns, c.2.length = rows) :
    Load.tableOf columns = .ok ⟨(Batch.ofCells equal).schema, [Batch.ofCells equal]⟩ := by
  rw [Load.tableOf, Table.ofColumns, if_neg (by simpa using nonempty), Batch.of_equal_columns nonempty equal]
  rfl

theorem single_batch_rows (schema : Schema) (b : Batch) : Table.numRows ⟨schema, [b]⟩ = b.rows := rfl

theorem table_of_none : Load.tableOf [] = .ok Table.empty := rfl

end TablePeek
