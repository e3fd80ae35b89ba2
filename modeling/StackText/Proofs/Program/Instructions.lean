import StackText.Proofs.Program.Minimal
import StackText.Proofs.Value.Structure

/-!
# The opcodes of programs

The program of a value only ever builds: it adds no integers, halves none and copies
nothing, whatever is nested in the value (`Value.program_builds`).
-/
namespace StackText

/-- Whether an opcode builds. The others add two integers, halve one, or copy. -/
def Opcode.builds : Opcode → Bool
  | .intAdd | .intShr | .dup => false
  | _ => true

theorem Opcode.builds_iff (op : Opcode) :
    op.builds ↔ op ≠ .intAdd ∧ op ≠ .intShr ∧ op ≠ .dup := by
  cases op <;> decide

/-- Nothing but opcodes that build. -/
def Builds (program : List Opcode) : Prop := ∀ op ∈ program, op.builds

@[simp] theorem builds_nil : Builds [] := nofun

@[simp] theorem builds_cons {op : Opcode} {rest : List Opcode} :
    Builds (op :: rest) ↔ op.builds ∧ Builds rest :=
  List.forall_mem_cons

@[simp] theorem builds_append {first second : List Opcode} :
    Builds (first ++ second) ↔ Builds first ∧ Builds second :=
  List.forall_mem_append

namespace Program

@[simp] theorem count_builds (n : Nat) : Builds (count n) := by
  intro op mem
  rcases counts_count n op mem with rfl | rfl
  · rfl
  · rfl

@[simp] theorem bits_builds (n : UInt64) : Builds (bits n) := by
  simp [bits, Opcode.builds]

theorem int_builds (n : Int64) : Builds (int n) := by
  unfold int
  split
  · simp [Opcode.builds]
  · simp

theorem uint_builds (n : UInt64) : Builds (uint n) := by
  simp [uint, Opcode.builds]

theorem float_builds (x : Binary64) : Builds (float x) := by
  unfold float
  split
  · simp [Opcode.builds]
  split
  · split <;> simp [Opcode.builds]
  · simp [Opcode.builds]

theorem str_builds (bytes : Bytes) : Builds (str bytes) := by
  refine builds_cons.2 ⟨rfl, fun op mem => ?_⟩
  obtain ⟨b, -, part⟩ := List.mem_flatMap.1 mem
  have byte : Builds (bits b.toUInt64 ++ [.strAdd]) := by simp [Opcode.builds]
  exact byte op part

theorem bool_builds (b : Bool) : Builds (bool b) := by
  cases b <;> simp [bool, Opcode.builds]

end Program

namespace Value

theorem setEntries_builds {entries : List (Bytes × Value)}
    (parts : ∀ e ∈ entries, Builds e.2.program) : Builds (setEntries entries) := by
  induction entries with
  | nil => exact builds_nil
  | cons e rest ih =>
      obtain ⟨first, later⟩ := List.forall_mem_cons.1 parts
      rw [setEntries, builds_append, builds_append, builds_cons]
      exact ⟨⟨Program.str_builds e.1, first⟩, rfl, ih later⟩

theorem appendItems_builds {items : List Value} (parts : ∀ v ∈ items, Builds v.program) :
    Builds (appendItems items) := by
  induction items with
  | nil => exact builds_nil
  | cons v rest ih =>
      obtain ⟨first, later⟩ := List.forall_mem_cons.1 parts
      rw [appendItems, builds_append, builds_cons]
      exact ⟨first, rfl, ih later⟩

theorem program_builds (v : Value) : Builds v.program := by
  induction v using Value.ind with
  | int n => exact Program.int_builds n
  | uint n => exact Program.uint_builds n
  | float x => exact Program.float_builds x
  | str bytes => exact Program.str_builds bytes
  | bool b => exact Program.bool_builds b
  | nil => exact builds_cons.2 ⟨rfl, builds_nil⟩
  | object entries ih => exact builds_cons.2 ⟨rfl, setEntries_builds ih⟩
  | array items ih => exact builds_cons.2 ⟨rfl, appendItems_builds ih⟩

end Value
end StackText
