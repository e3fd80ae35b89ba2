import StackText.Proofs.Entries
import StackText.Proofs.Machine.Run
import StackText.Proofs.Value.Structure

/-!
# How high a value stands and how much it needs

Without copying, a value on the stack was built where it stands: its parts stood
above it when they were taken in. So its height and its need together are never more
than the greatest depth so far (`Settled`), be the program sensible or not and
whether or not failures stop it. A copy can stand lower than its original was built,
so copying has to be left out.
-/
namespace StackText

/-- Every value on a stack, listed from the top, stands low enough for its need. -/
def Settled (peak : Nat) : List Value → Prop
  | [] => True
  | v :: rest => rest.length + v.need ≤ peak ∧ Settled peak rest

namespace Settled
variable {peak : Nat}

theorem suffix {s rest : List Value} (h : Settled peak s) (below : rest <:+ s) :
    Settled peak rest := by
  induction s with
  | nil => rwa [List.eq_nil_of_suffix_nil below]
  | cons v s ih =>
      rcases List.suffix_cons_iff.1 below with rfl | below
      · exact h
      · exact ih h.2 below

/-- Heights count from the bottom, so they read the list backwards. -/
theorem height_add_need_le {s : List Value} (h : Settled peak s) {i : Nat} {v : Value}
    (at_ : s.reverse[i]? = some v) : i + v.need ≤ peak := by
  induction s with
  | nil => cases at_
  | cons w rest ih =>
      rw [List.reverse_cons] at at_
      by_cases lower : i < rest.length
      · rw [List.getElem?_append_left (by rwa [List.length_reverse])] at at_
        exact ih h.2 at_
      · obtain ⟨bound, _⟩ := List.getElem?_eq_some_iff.1 at_
        simp only [List.length_append, List.length_reverse, List.length_singleton] at bound
        obtain rfl : i = rest.length := by omega
        rw [List.getElem?_append_right (Nat.le_of_eq List.length_reverse), List.length_reverse,
          Nat.sub_self] at at_
        obtain rfl : w = v := Option.some.inj at_
        exact h.1

/-- What an opcode makes of settled operands is settled, wherever the greatest depth
has room for it. The parts that it takes in stood one or two places above it. -/
theorem makes {op : Opcode} {s rest : List Value} {v : Value} (h : Settled peak s)
    (noCopy : op ≠ .dup) (made : op.Makes s v rest) (room : rest.length + 1 ≤ peak) :
    Settled peak (v :: rest) := by
  refine ⟨?_, h.suffix made.suffix⟩
  cases made with
  | dup => exact absurd rfl noCopy
  | @strAdd n bytes =>
      obtain ⟨onTop, -⟩ := h
      have need := Value.need_str_le (bytes ++ [n.toUInt64.toUInt8])
      simp only [List.length_cons, Value.need] at onTop
      omega
  | @objAdd w key entries =>
      obtain ⟨value, -, object, -⟩ := h
      have need := Value.need_object_set_le key w entries
      simp only [List.length_cons] at value
      omega
  | @arrAdd w items =>
      obtain ⟨value, array, -⟩ := h
      rw [Value.need_array_append]
      simp only [List.length_cons] at value
      omega
  | _ => exact room

end Settled

namespace Machine

/-- One step, seen from a bound on the depth before and after it. -/
theorem settled_step {m : Machine} {op : Opcode} {peak : Nat} (h : Settled peak m.stack.values)
    (noCopy : op ≠ .dup) (bound : (m.step op).state.depth ≤ peak) :
    Settled peak (m.step op).state.stack.values := by
  rcases m.step_cases op with
    ⟨v, rest, made, _, step⟩ | ⟨v, rest, made, _, step⟩ | ⟨rest, trap, refused, step⟩
  · rw [step] at bound ⊢
    exact h.makes noCopy made bound
  · rw [step]
    exact h.suffix made.suffix
  · rw [step]
    exact h.suffix refused.suffix

theorem settled_after {m : Machine} {ops : List Opcode} {peak : Nat}
    (h : Settled peak m.stack.values) (noCopy : .dup ∉ ops) (bound : m.greatestDepth ops ≤ peak) :
    Settled peak (m.after ops).stack.values := by
  induction ops generalizing m with
  | nil => exact h
  | cons op rest ih =>
      rw [List.mem_cons, not_or] at noCopy
      have later : (m.step op).state.greatestDepth rest ≤ peak :=
        Nat.le_trans (Nat.le_max_right _ _) bound
      have first : (m.step op).state.depth ≤ peak :=
        Nat.le_trans (depth_le_greatestDepth _ rest) later
      exact ih (settled_step h (Ne.symm noCopy.1) first) noCopy.2 later

/-- From an empty stack, the greatest depth of the run itself is a bound. -/
theorem height_add_need_le {m : Machine} (empty : m.stack.values = []) {ops : List Opcode}
    (noCopy : .dup ∉ ops) {i : Nat} {v : Value}
    (at_ : (m.after ops).stack.values.reverse[i]? = some v) :
    i + v.need ≤ m.greatestDepth ops := by
  have start : Settled (m.greatestDepth ops) m.stack.values := by
    rw [empty]
    trivial
  exact (settled_after start noCopy (Nat.le_refl _)).height_add_need_le at_

theorem values_of_top? {m : Machine} {v : Value} (h : m.top? = some v) :
    ∃ rest, m.stack.values = v :: rest :=
  List.head?_eq_some_iff.1 h

theorem top_need_le_capacity {m n : Machine} (empty : m.stack.values = []) {ops : List Opcode}
    (noCopy : .dup ∉ ops) (run : m.steps ops = .ok n) {v : Value} (top : n.top? = some v) :
    v.need ≤ m.capacity := by
  obtain ⟨rest, values⟩ := values_of_top? top
  have at_ : (m.after ops).stack.values.reverse[rest.length]? = some v := by
    rw [after_of_steps_ok run, values, List.reverse_cons, List.getElem?_append_right (by simp)]
    simp
  have height := height_add_need_le empty noCopy at_
  have depth : m.depth ≤ m.capacity := by
    rw [depth, Stack.depth, empty]
    exact Nat.zero_le _
  have bound := greatestDepth_le_capacity depth ops
  omega

/-- A machine gives every object its keys once, copying included. -/
theorem uniqueKeys_of_makes {op : Opcode} {s rest : List Value} {v : Value}
    (h : ∀ w ∈ s, w.hasUniqueKeys) (made : op.Makes s v rest) : v.hasUniqueKeys := by
  cases made with
  | dup => exact h _ List.mem_cons_self
  | @objAdd w key entries =>
      have object := h (.object entries) (by simp)
      have value := h w List.mem_cons_self
      rw [Value.hasUniqueKeys_object] at object ⊢
      constructor
      · exact Entries.nodup_keys_set key w object.1
      · intro e mem
        rcases Entries.mem_of_mem_set mem with rfl | old
        · exact value
        · exact object.2 e old
  | @arrAdd w items =>
      have array := h (.array items) (by simp)
      have value := h w List.mem_cons_self
      rw [Value.hasUniqueKeys_array] at array ⊢
      intro u mem
      rcases List.mem_append.1 mem with old | new
      · exact array u old
      · rwa [List.mem_singleton.1 new]
  | _ => rfl

theorem uniqueKeys_step {m : Machine} (h : ∀ w ∈ m.stack.values, w.hasUniqueKeys) (op : Opcode) :
    ∀ w ∈ (m.step op).state.stack.values, w.hasUniqueKeys := by
  intro w mem
  rcases m.step_cases op with
    ⟨v, rest, made, _, step⟩ | ⟨v, rest, made, _, step⟩ | ⟨rest, trap, refused, step⟩
  · rw [step] at mem
    rcases List.mem_cons.1 mem with rfl | below
    · exact uniqueKeys_of_makes h made
    · exact h w (made.suffix.subset below)
  · rw [step] at mem
    exact h w (made.suffix.subset mem)
  · rw [step] at mem
    exact h w (refused.suffix.subset mem)

theorem uniqueKeys_after {m : Machine} (h : ∀ w ∈ m.stack.values, w.hasUniqueKeys)
    (ops : List Opcode) : ∀ w ∈ (m.after ops).stack.values, w.hasUniqueKeys := by
  induction ops generalizing m with
  | nil => exact h
  | cons op rest ih => exact ih (uniqueKeys_step h op)

end Machine
end StackText
