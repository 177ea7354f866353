import TablePeek.Proofs.Inference.Entries
import TablePeek.Proofs.Number.Integers

set_option autoImplicit false

namespace TablePeek

inductive Widened : Cell → Value → Prop where
  | null (type : ColumnType) : Widened .null ⟨type, none⟩
  | integer (n : Int64) : Widened (.integer n) ⟨.int64, some n⟩
  | float (x : Binary64) : Widened (.float x) ⟨.float64, some x⟩
  | rounded (n : Int64) (x : Binary64) (nearest : Binary64.NearestTo n.toInt x)
    (exact : x.rational? = some (n.toInt : ℚ) ↔ FewBits n.toInt) : Widened (.integer n) ⟨.float64, some x⟩

variable (cells : List Cell)

theorem integers_kept (integers : Integers cells) (c : Cell) (member : c ∈ cells) :
    Widened c ⟨Kind.integer.columnType, Kind.integer.entry c⟩ := by
  rcases integers.1 c member with rfl | ⟨n, rfl⟩
  · exact .null .int64
  · exact .integer n

theorem floats_kept (floats : Floats cells) (c : Cell) (member : c ∈ cells) :
    Widened c ⟨Kind.float.columnType, Kind.float.entry c⟩ := by
  rcases floats.1 c member with rfl | ⟨n, rfl⟩ | ⟨x, rfl⟩
  · exact .null .float64
  · exact .rounded n _ (Binary64.of_int_nearest _ (int64_small n)) (Binary64.of_int_exact _ (int64_small n))
  · exact .float x

theorem widened_at (float : (Column.infer cells).type = .float64) {i : Nat} {n : Int64} {x : Binary64}
    (cell : cells[i]? = some (.integer n)) (entry : (Column.infer cells).values[i]? = some ⟨.float64, some x⟩) :
    x = .ofInt n.toInt := by
  have made := value_at cells i _ cell
  rw [(type_float64 cells).mp float, entry] at made
  have same := Option.some.inj made
  injection same with _ entries
  exact Option.some.inj entries

/-- A column of numbers holds the very numbers of its cells, but for whole numbers among floats that take more than 53
bits, which become the nearest float. Different whole numbers stay different if both take fewer, and none changes its
order with another. -/
theorem numbers_widened (numbers : (Column.infer cells).type = .int64 ∨ (Column.infer cells).type = .float64) :
    List.Forall₂ Widened cells (Column.infer cells).values ∧
    ∀ (i j : Nat) (n k : Int64) (x y : Binary64), (Column.infer cells).type = .float64 →
      cells[i]? = some (.integer n) → cells[j]? = some (.integer k) →
      (Column.infer cells).values[i]? = some ⟨.float64, some x⟩ →
      (Column.infer cells).values[j]? = some ⟨.float64, some y⟩ →
      (FewBits n.toInt → FewBits k.toInt → n ≠ k → x ≠ y) ∧
      (n < k → ∃ p q, x.rational? = some p ∧ y.rational? = some q ∧ p ≤ q) := by
  refine ⟨?_, fun i j n k x y float first second here there => ?_⟩
  · rw [infer_values, List.forall₂_map_right_iff, List.forall₂_same]
    rcases numbers with whole | float
    · rw [(type_int64 cells).mp whole]
      exact integers_kept cells ((Kind.of_cells_integer cells).mp ((type_int64 cells).mp whole))
    · rw [(type_float64 cells).mp float]
      exact floats_kept cells ((Kind.of_cells_float cells).mp ((type_float64 cells).mp float))
  · obtain rfl := widened_at cells float first here
    obtain rfl := widened_at cells float second there
    constructor
    · intro few few' other same
      have value := (Binary64.of_int_exact _ (int64_small n)).mpr few
      have value' := (Binary64.of_int_exact _ (int64_small k)).mpr few'
      rw [same, value'] at value
      exact other (Int64.toInt_inj.mp (by exact_mod_cast (Option.some.inj value).symm))
    · exact fun less => Binary64.of_int_in_order (int64_small n) (int64_small k) (Int64.lt_iff_toInt_lt.mp less)

-- The half is far from them, but it makes floats of them.
def longIntegers : List Cell := [.integer 9007199254740992, .null, .integer 9007199254740993, .float (.ofRatio false 1 2)]

theorem long_integers_widened : (Column.infer longIntegers).type = .float64 ∧
    List.Forall₂ Widened longIntegers (Column.infer longIntegers).values ∧
    ∃ x y p q, (Column.infer longIntegers).values[0]? = some ⟨.float64, some x⟩ ∧
      (Column.infer longIntegers).values[2]? = some ⟨.float64, some y⟩ ∧
      x.rational? = some p ∧ y.rational? = some q ∧ p ≤ q := by
  have float : (Column.infer longIntegers).type = .float64 := by decide
  obtain ⟨kept, order⟩ := numbers_widened longIntegers (.inr float)
  obtain ⟨p, q, first, second, le⟩ := (order 0 2 _ _ _ _ float rfl rfl rfl rfl).2 (by decide)
  exact ⟨float, kept, _, _, p, q, rfl, rfl, first, second, le⟩

theorem long_integers_meet : ∃ x, (Column.infer longIntegers).type = .float64 ∧
    (Column.infer longIntegers).values[0]? = some ⟨.float64, some x⟩ ∧
    (Column.infer longIntegers).values[2]? = some ⟨.float64, some x⟩ ∧
    x.rational? = some 9007199254740992 ∧ x.rational? ≠ some 9007199254740993 := by
  have same : Binary64.ofInt 9007199254740993 = .ofInt 9007199254740992 := by decide +kernel
  have value : (Binary64.ofInt 9007199254740992).rational? = some 9007199254740992 := by
    exact_mod_cast (Binary64.of_int_exact 9007199254740992 (by decide)).mpr ⟨4503599627370496, 1, by decide, by decide⟩
  have entry : (Column.infer longIntegers).values[2]? = some ⟨.float64, some (.ofInt 9007199254740993)⟩ := rfl
  refine ⟨.ofInt 9007199254740992, by decide, rfl, same ▸ entry, value, ?_⟩
  rw [value]
  norm_num

end TablePeek
