import StackText.Proofs.Codec.Recoding
import StackText.Proofs.Machine.Growth

/-!
# A text bounds what it decodes to

Nothing that a text does not begin comes out of it. Without copying, a value holds no more
than the text has tokens that begin a value; with copying, no more than that number doubled
once for every copy.
-/
namespace StackText
open Machine

theorem weight_ofCapacity_after_le (capacity : Nat) (ops : List Opcode) :
    ((ofCapacity capacity).after ops).weight ≤
      ops.countP Opcode.begins * 2 ^ ops.count .dup := by
  have bound := weight_after_le (ofCapacity capacity) ops
  have empty : (ofCapacity capacity).weight = 0 := rfl
  rwa [empty, Nat.zero_add] at bound

theorem size_le_weight_of_top? {m : Machine} {v : Value} (h : m.top? = some v) :
    v.size ≤ m.weight := by
  obtain ⟨rest, values⟩ := values_of_top? h
  rw [weight, values, Value.totalSize]
  exact Nat.le_add_right _ _

theorem size_le_of_decode {settings : Settings} {source : Source} {v : Value}
    (h : decode settings source = .ok v) :
    v.size ≤ (Alphabet.ascii.opcodes source.data).countP Opcode.begins *
      2 ^ (Alphabet.ascii.opcodes source.data).count .dup := by
  obtain ⟨n, run, top⟩ := steps_of_decode h
  have bound := weight_ofCapacity_after_le (effectiveCapacity settings.capacity)
    (Alphabet.ascii.opcodes source.data)
  have left : (ofCapacity (effectiveCapacity settings.capacity)).after
      (Alphabet.ascii.opcodes source.data) = n := after_of_steps_ok run
  rw [left] at bound
  exact Nat.le_trans (size_le_weight_of_top? top) bound

/-- On a fresh machine of any capacity, whatever is fed and whatever fails, the values on
the stack together hold no more than the number of opcodes fed that begin a value, doubled
once for every copy fed. So a text without copying decodes to a value that holds no more
than the text has tokens without operands. -/
theorem weight_le_begun_doubled :
    (∀ (capacity : Nat) (ops : List Opcode),
      ((((ofCapacity capacity).after ops).stack.values.map Value.size).sum ≤
        (ops.countP fun op => op.arity = 0 ∧ op ≠ .dup) * 2 ^ ops.count .dup)) ∧
      ∀ (settings : Settings) (source : Source) (v : Value), decode settings source = .ok v →
        (v.size ≤ ((Alphabet.ascii.opcodes source.data).countP fun op =>
          op.arity = 0 ∧ op ≠ .dup) * 2 ^ (Alphabet.ascii.opcodes source.data).count .dup) ∧
        (.dup ∉ Alphabet.ascii.opcodes source.data →
          v.size ≤ (Alphabet.ascii.opcodes source.data).countP fun op => op.arity = 0) := by
  refine ⟨?_, ?_⟩
  · intro capacity ops
    rw [← Value.totalSize_eq_sum]
    exact weight_ofCapacity_after_le capacity ops
  · intro settings source v read
    have bound := size_le_of_decode read
    refine ⟨bound, fun noCopy => ?_⟩
    have none : (Alphabet.ascii.opcodes source.data).count .dup = 0 :=
      List.count_eq_zero.2 noCopy
    rw [none, Nat.pow_zero, Nat.mul_one] at bound
    have fewer : ∀ op ∈ Alphabet.ascii.opcodes source.data,
        op.begins → decide (op.arity = 0) := by
      intro op _ begins
      exact decide_eq_true (of_decide_eq_true begins).1
    exact Nat.le_trans bound (List.countP_mono_left fewer)

/-- An array that takes in a copy of itself, twice, meets the bound. A failed shift and a
value without room stay below it. -/
theorem weight_le_begun_doubled_array :
    (((ofCapacity 2).after [.arrNew, .dup, .arrAdd, .dup, .arrAdd]).stack.values.map
        Value.size).sum = 4 ∧
      (((ofCapacity 2).after [.nilNew, .boolNew, .intShl, .strNew, .strNew]).stack.values.map
        Value.size).sum ≤ 4 ∧
      (Value.array [.nil]).size ≤ 2 := by
  obtain ⟨bound, decoded⟩ := weight_le_begun_doubled
  have read : decode {} (.ofBytes [64, 46, 10, 115]) = .ok (.array [.nil]) := by
    rw [decode_eq]
    rfl
  exact ⟨rfl, bound 2 [.nilNew, .boolNew, .intShl, .strNew, .strNew],
    (decoded {} (.ofBytes [64, 46, 10, 115]) _ read).2 (by decide)⟩

end StackText
