import TablePeek.Proofs.Json.Text

set_option autoImplicit false

namespace TablePeek.Json

namespace Value

def InRecord (v : Value) : Prop :=
  ∃ text records members key, read text = .ok (.array records) ∧ .object members ∈ records ∧ (key, v) ∈ members

inductive Nested : Value → Prop where
  | array (items : List Value) : Nested (.array items)
  | object (members : List (String × Value)) : Nested (.object members)

inductive OnlyIntegers : Value → Prop where
  | null : OnlyIntegers .null
  | bool (b : Bool) : OnlyIntegers (.bool b)
  | integer (i : Int) : OnlyIntegers (.integer i)
  | string (s : String) : OnlyIntegers (.string s)
  | array (items : List Value) (each : ∀ v ∈ items, OnlyIntegers v) : OnlyIntegers (.array items)
  | object (members : List (String × Value)) (each : ∀ m ∈ members, OnlyIntegers m.2) : OnlyIntegers (.object members)

end Value

variable {depth : Nat} {v : Value}

theorem written_of_held (held : Held depth v) (integers : v.OnlyIntegers) : Written depth v := by
  induction held with
  | null => exact .null _
  | bool _ b => exact .bool _ b
  | integer _ i low high => exact .integer _ i low high
  | float => cases integers
  | string _ s => exact .string _ s
  | array _ items _ ih =>
    cases integers with
    | array _ each => exact .array _ items fun w member => ih w member (each w member)
  | object _ members distinct _ ih =>
    cases integers with
    | object _ each => exact .object _ members distinct fun m member => ih m member (each m member)

theorem written_deeper (written : Written depth v) : Written (depth + 1) v := by
  induction written with
  | null => exact .null _
  | bool _ b => exact .bool _ b
  | integer _ i low high => exact .integer _ i low high
  | string _ s => exact .string _ s
  | array _ items _ ih => exact .array _ items ih
  | object _ members distinct _ ih => exact .object _ members distinct ih

-- Two levels go to the list of records and the record itself.
theorem held_in_record (accepted : v.InRecord) : Held 125 v := by
  obtain ⟨text, records, members, key, parsed, inList, inRecord⟩ := accepted
  have whole : Held 127 (.array records) := read_held parsed
  cases whole with
  | array _ _ each =>
    have record := each _ inList
    cases record with
    | object _ _ _ each => exact each _ inRecord

theorem text_read_back (accepted : v.InRecord) (integers : v.OnlyIntegers) : read v.toText = .ok v :=
  read_text v (written_deeper (written_deeper (written_of_held (held_in_record accepted) integers)))

theorem nested_cell (nested : v.Nested) : Cell.ofJson v = .text (String.ofList v.toText) := by
  cases nested <;> rfl

/-- An array or object in a record, without floats at any depth, is kept as a text that is read as the same value again.
So its cell is no other value's. -/
theorem nested_text_kept (accepted : v.InRecord) (nested : v.Nested) (integers : v.OnlyIntegers) :
    (∃ s, Cell.ofJson v = .text s ∧ read s.toList = .ok v ∧ (read s.toList).map Cell.ofJson = .ok (.text s)) ∧
      ∀ w : Value, w.InRecord → w.Nested → w.OnlyIntegers → Cell.ofJson w = Cell.ofJson v → w = v := by
  have text : (String.ofList v.toText).toList = v.toText := String.toList_ofList
  have back := text_read_back accepted integers
  have cell := nested_cell nested
  refine ⟨⟨_, cell, by rw [text, back], by rw [text, back, Except.map, cell]⟩, fun w other otherNested whole same => ?_⟩
  rw [cell, nested_cell otherNested, Cell.text.injEq, String.ofList_inj] at same
  have otherBack := text_read_back other whole
  rw [same, back] at otherBack
  exact (Except.ok.inj otherBack).symm

def looseObject : Value := .object [("b", .array [.integer 18446744073709551615]), ("😀\n", .array [])]

theorem loose_object_read :
    read " [\x7b \"k\": \x7b\"b\" :1, \"\\ud83d\\ude00\\n\": [ ],\"b\":[18446744073709551615] \x7d\x7d, 7 ]".toList =
      .ok (.array [.object [("k", looseObject)], .integer 7]) := by
  with_unfolding_all rfl

theorem loose_object_kept : looseObject.InRecord ∧ ∃ s, Cell.ofJson looseObject = .text s ∧
    read s.toList = .ok looseObject ∧ (read s.toList).map Cell.ofJson = .ok (.text s) := by
  have accepted : looseObject.InRecord :=
    ⟨_, _, _, "k", loose_object_read, List.mem_cons_self, List.mem_cons_self⟩
  have integers : looseObject.OnlyIntegers := by
    refine .object _ fun m member => ?_
    simp only [List.mem_cons, List.not_mem_nil, or_false] at member
    rcases member with rfl | rfl
    · exact .array _ fun w only => List.mem_singleton.mp only ▸ .integer _
    · exact .array [] (by simp)
  exact ⟨accepted, (nested_text_kept accepted (.object _) integers).1⟩

end TablePeek.Json
