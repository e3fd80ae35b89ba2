import Mathlib.Algebra.Order.Ring.Nat
import StackText.Proofs.Machine.Run

/-!
# How much a program can build

`Value.size` counts what a value is made of: itself, the bytes of its strings and keys,
its items and its entries. Opcodes only move this around. What an opcode makes weighs no
more than its operands, which are used up; only an opcode that begins a value adds one, and
copying doubles at most what is there. Failures lose values and gain none. So the stack
never weighs more than the values begun, doubled once for each copy (`weight_after_le`).
-/
namespace StackText

namespace Value

mutual

/-- How much a value holds: one for itself, and what its bytes, entries or items hold. An
entry counts apart from its key and its value. -/
def size : Value → Nat
  | .str bytes => 1 + bytes.length
  | .object entries => 1 + entriesSize entries
  | .array items => 1 + totalSize items
  | _ => 1
  termination_by structural v => v

def entriesSize : List (Bytes × Value) → Nat
  | [] => 0
  | (key, v) :: rest => (1 + key.length + size v) + entriesSize rest
  termination_by structural entries => entries

/-- How much several values hold together. -/
def totalSize : List Value → Nat
  | [] => 0
  | v :: rest => size v + totalSize rest
  termination_by structural values => values

end

theorem totalSize_eq_sum (values : List Value) : totalSize values = (values.map size).sum := by
  induction values with
  | nil => rfl
  | cons v rest ih => rw [totalSize, List.map_cons, List.sum_cons, ih]

theorem totalSize_append (xs ys : List Value) :
    totalSize (xs ++ ys) = totalSize xs + totalSize ys := by
  simp only [totalSize_eq_sum, List.map_append, List.sum_append]

theorem totalSize_le_of_suffix {s rest : List Value} (h : rest <:+ s) :
    totalSize rest ≤ totalSize s := by
  obtain ⟨gone, rfl⟩ := h
  rw [totalSize_append]
  exact Nat.le_add_left _ _

/-- Setting a key adds an entry, or replaces a value and adds no more than the new one. -/
theorem entriesSize_set_le (key : Bytes) (v : Value) (entries : List (Bytes × Value)) :
    entriesSize (Entries.set key v entries) ≤ (1 + key.length + v.size) + entriesSize entries := by
  induction entries with
  | nil => exact Nat.le_refl _
  | cons e rest ih =>
      obtain ⟨k, old⟩ := e
      rw [Entries.set]
      split <;> simp only [entriesSize] <;> omega

end Value

open Value

/-- Whether an opcode begins a value of its own, from no operand. -/
def Opcode.begins (op : Opcode) : Bool := op.arity = 0 ∧ op ≠ .dup

namespace Opcode
variable {op : Opcode} {s rest : List Value} {v : Value}

/-- Operands go into the result, and nothing else does. -/
theorem Makes.totalSize_le (h : op.Makes s v rest) (noCopy : op ≠ .dup) :
    totalSize (v :: rest) ≤ totalSize s + if op.begins then 1 else 0 := by
  cases h with
  | dup => exact absurd rfl noCopy
  | intNew | floatInf | floatNan | strNew | objNew | arrNew | boolNew | nilNew =>
      exact Nat.le_of_eq (Nat.add_comm 1 _)
  | strAdd =>
      simp only [totalSize, size, List.length_append, List.length_singleton]
      omega
  | @objAdd w key entries =>
      have set := entriesSize_set_le key w entries
      simp only [totalSize, size]
      omega
  | arrAdd =>
      simp only [totalSize, size, totalSize_append]
      omega
  | _ =>
      simp only [totalSize, size]
      omega

theorem Makes.totalSize_dup_le (h : Makes .dup s v rest) :
    totalSize (v :: rest) ≤ 2 * totalSize s := by
  cases h
  simp only [totalSize]
  omega

end Opcode

namespace Machine

/-- How much is on the stack. -/
def weight (m : Machine) : Nat := totalSize m.stack.values

theorem weight_step_le (m : Machine) {op : Opcode} (noCopy : op ≠ .dup) :
    (m.step op).state.weight ≤ m.weight + if op.begins then 1 else 0 := by
  rcases m.step_cases op with
    ⟨v, rest, makes, _, step⟩ | ⟨v, rest, makes, _, step⟩ | ⟨rest, trap, refuses, step⟩
  · rw [step]
    exact makes.totalSize_le noCopy
  · rw [step]
    exact Nat.le_add_right_of_le (totalSize_le_of_suffix makes.suffix)
  · rw [step]
    exact Nat.le_add_right_of_le (totalSize_le_of_suffix refuses.suffix)

theorem weight_step_dup_le (m : Machine) : (m.step .dup).state.weight ≤ 2 * m.weight := by
  have kept {rest : List Value} (below : rest <:+ m.stack.values) :
      totalSize rest ≤ 2 * m.weight :=
    Nat.le_trans (totalSize_le_of_suffix below) (Nat.le_mul_of_pos_left _ Nat.two_pos)
  rcases m.step_cases .dup with
    ⟨v, rest, makes, _, step⟩ | ⟨v, rest, makes, _, step⟩ | ⟨rest, trap, refuses, step⟩
  · rw [step]
    exact makes.totalSize_dup_le
  · rw [step]
    exact kept makes.suffix
  · rw [step]
    exact kept refuses.suffix

/-- A copy doubles at most what is there. What is begun after it is counted as if it were
doubled too, which is on the safe side. -/
theorem weight_after_le (m : Machine) (ops : List Opcode) :
    (m.after ops).weight ≤ (m.weight + ops.countP Opcode.begins) * 2 ^ ops.count .dup := by
  induction ops generalizing m with
  | nil => exact Nat.le_of_eq (Nat.mul_one _).symm
  | cons op rest ih =>
      have later := ih (m.step op).state
      rw [after_cons, List.countP_cons, List.count_cons]
      by_cases copy : op = .dup
      · subst copy
        calc ((m.step .dup).state.after rest).weight
            ≤ ((m.step .dup).state.weight + rest.countP Opcode.begins) * 2 ^ rest.count .dup :=
              later
          _ ≤ (2 * (m.weight + rest.countP Opcode.begins)) * 2 ^ rest.count .dup := by
              have doubled := m.weight_step_dup_le
              exact Nat.mul_le_mul_right _ (by omega)
          _ = (m.weight + (rest.countP Opcode.begins + 0)) * 2 ^ (rest.count .dup + 1) := by
              rw [Nat.add_zero, Nat.pow_succ, Nat.mul_comm 2, Nat.mul_assoc, Nat.mul_comm 2]
      · have grown := m.weight_step_le copy
        have single : (if (op == .dup) = true then 1 else 0) = 0 := if_neg (by simpa using copy)
        rw [single, Nat.add_zero]
        exact Nat.le_trans later (Nat.mul_le_mul_right _ (by omega))

end Machine
end StackText
