import StackText.Proofs.Attempt
import StackText.Proofs.Machine.Step

/-!
# Runs of the machine

A program can be fed in two ways: `Machine.steps` stops at the first opcode that
fails, `Machine.after` goes on. Stopping is going on with the opcodes that are
reached (`after_reached`), so what holds of every run that goes on holds of every run
that stops. `Machine.greatestDepth` is the height that the stack rises to on the way;
a run never raises it above the capacity (`greatestDepth_le_capacity`).

A run depends on the stack alone: the count of executed opcodes is only carried along
(`steps_ahead`).
-/
namespace StackText

namespace Machine

@[simp] theorem steps_nil (m : Machine) : m.steps [] = .ok m := rfl

@[simp] theorem steps_cons (m : Machine) (op : Opcode) (rest : List Opcode) :
    m.steps (op :: rest) = (m.step op).andThen fun m => m.steps rest := rfl

theorem steps_append (m : Machine) (first second : List Opcode) :
    m.steps (first ++ second) = (m.steps first).andThen fun m => m.steps second :=
  Attempt.runAll_append step m first second

/-- What feeding opcodes leaves behind if failures do not stop it. -/
def after (m : Machine) (ops : List Opcode) : Machine := (Attempt.runEach step m ops).2

@[simp] theorem after_cons (m : Machine) (op : Opcode) (rest : List Opcode) :
    m.after (op :: rest) = (m.step op).state.after rest := rfl

/-- The opcodes that are tried before a failure stops the run, the failing one included. -/
def reached (m : Machine) : List Opcode → List Opcode
  | [] => []
  | op :: rest => op :: if (m.step op).fault.isNone then (m.step op).state.reached rest else []

theorem reached_cons_of_ok {m n : Machine} {op : Opcode} (h : m.step op = .ok n)
    (rest : List Opcode) : m.reached (op :: rest) = op :: n.reached rest := by
  simp [reached, h]

theorem reached_cons_of_fail {m n : Machine} {op : Opcode} {trap : Trap}
    (h : m.step op = .fail n trap) (rest : List Opcode) : m.reached (op :: rest) = [op] := by
  simp [reached, h]

theorem reached_isPrefix (m : Machine) (ops : List Opcode) : m.reached ops <+: ops := by
  induction ops generalizing m with
  | nil => exact List.prefix_rfl
  | cons op rest ih =>
      unfold reached
      split
      · exact (List.prefix_cons_inj op).2 (ih _)
      · exact ⟨rest, rfl⟩

theorem step_eq_ok_or_fail (m : Machine) (op : Opcode) :
    (∃ n, m.step op = .ok n) ∨ ∃ n trap, m.step op = .fail n trap := by
  rcases m.step op with ⟨n, _ | trap⟩
  · exact .inl ⟨n, rfl⟩
  · exact .inr ⟨n, trap, rfl⟩

theorem after_reached (m : Machine) (ops : List Opcode) :
    m.after (m.reached ops) = (m.steps ops).state := by
  induction ops generalizing m with
  | nil => rfl
  | cons op rest ih =>
      rcases m.step_eq_ok_or_fail op with ⟨n, h⟩ | ⟨n, trap, h⟩
      · rw [reached_cons_of_ok h, after_cons, steps_cons, h, Attempt.andThen_ok]
        exact ih n
      · rw [reached_cons_of_fail h, after_cons, steps_cons, h]
        rfl

/-- A run that fails does so at one of its opcodes, behind others that succeed. -/
theorem exists_failing_step {m n : Machine} {ops : List Opcode} {trap : Trap}
    (h : m.steps ops = .fail n trap) :
    ∃ before op rest k, ops = before ++ op :: rest ∧ m.steps before = .ok k ∧
      k.step op = .fail n trap := by
  induction ops generalizing m with
  | nil => cases h
  | cons op rest ih =>
      rw [steps_cons] at h
      rcases m.step_eq_ok_or_fail op with ⟨next, step⟩ | ⟨next, _, step⟩
      · rw [step, Attempt.andThen_ok] at h
        obtain ⟨before, failing, behind, k, rfl, run, fails⟩ := ih h
        refine ⟨op :: before, failing, behind, k, rfl, ?_, fails⟩
        rw [steps_cons, step]
        exact run
      · rw [step, Attempt.andThen_fail] at h
        exact ⟨[], op, rest, m, rfl, rfl, step.trans h⟩

/-- A run that succeeds is the same whether or not failures would stop it. -/
theorem after_of_steps_ok {m n : Machine} {ops : List Opcode} (h : m.steps ops = .ok n) :
    m.after ops = n := by
  induction ops generalizing m with
  | nil => exact congrArg Attempt.state h
  | cons op rest ih =>
      rw [steps_cons] at h
      rcases m.step_eq_ok_or_fail op with ⟨k, step⟩ | ⟨k, trap, step⟩
      · rw [step, Attempt.andThen_ok] at h
        rw [after_cons, step]
        exact ih h
      · rw [step, Attempt.andThen_fail] at h
        cases h

/-- The greatest depth of the stack while opcodes are fed, whatever becomes of them. -/
def greatestDepth (m : Machine) : List Opcode → Nat
  | [] => m.depth
  | op :: rest => max m.depth ((m.step op).state.greatestDepth rest)

theorem depth_le_greatestDepth (m : Machine) (ops : List Opcode) :
    m.depth ≤ m.greatestDepth ops := by
  cases ops with
  | nil => exact Nat.le_refl _
  | cons op rest => exact Nat.le_max_left _ _

theorem depth_after_le_greatestDepth (m : Machine) (ops : List Opcode) :
    (m.after ops).depth ≤ m.greatestDepth ops := by
  induction ops generalizing m with
  | nil => exact Nat.le_refl _
  | cons op rest ih => exact Nat.le_trans (ih _) (Nat.le_max_right _ _)

theorem greatestDepth_append (m : Machine) (first second : List Opcode) :
    m.greatestDepth (first ++ second) =
      max (m.greatestDepth first) ((m.after first).greatestDepth second) := by
  induction first generalizing m with
  | nil => exact (Nat.max_eq_right (m.depth_le_greatestDepth second)).symm
  | cons op rest ih =>
      rw [List.cons_append, greatestDepth, greatestDepth, ih, Nat.max_assoc]
      rfl

theorem capacity_step (m : Machine) (op : Opcode) : (m.step op).state.capacity = m.capacity := by
  rcases m.step_cases op with ⟨v, rest, _, _, h⟩ | ⟨v, rest, _, _, h⟩ | ⟨rest, trap, _, h⟩ <;>
    rw [h] <;> rfl

theorem depth_step_le {m : Machine} (h : m.depth ≤ m.capacity) (op : Opcode) :
    (m.step op).state.depth ≤ m.capacity := by
  have fits : m.stack.values.length ≤ m.capacity := h
  rcases m.step_cases op with
    ⟨v, rest, _, room, step⟩ | ⟨v, rest, makes, _, step⟩ | ⟨rest, trap, refused, step⟩ <;>
    rw [step]
  · exact room
  · exact Nat.le_trans (makes.suffix.length_le) fits
  · exact Nat.le_trans refused.suffix.length_le fits

theorem greatestDepth_le_capacity {m : Machine} (h : m.depth ≤ m.capacity) (ops : List Opcode) :
    m.greatestDepth ops ≤ m.capacity := by
  induction ops generalizing m with
  | nil => exact h
  | cons op rest ih =>
      refine Nat.max_le.2 ⟨h, ?_⟩
      have next := ih (m := (m.step op).state) (by rw [capacity_step]; exact depth_step_le h op)
      rwa [capacity_step] at next

theorem capacity_after (m : Machine) (ops : List Opcode) : (m.after ops).capacity = m.capacity := by
  induction ops generalizing m with
  | nil => rfl
  | cons op rest ih => rw [after_cons, ih, capacity_step]

theorem depth_after_le {m : Machine} (h : m.depth ≤ m.capacity) (ops : List Opcode) :
    (m.after ops).depth ≤ m.capacity :=
  Nat.le_trans (m.depth_after_le_greatestDepth ops) (greatestDepth_le_capacity h ops)

theorem executed_step (m : Machine) (op : Opcode) :
    (m.step op).state.executed = m.executed + if (m.step op).fault.isNone then 1 else 0 := by
  rcases m.step_cases op with ⟨_, _, _, _, step⟩ | ⟨_, _, _, _, step⟩ | ⟨_, _, _, step⟩ <;>
    rw [step] <;> rfl

/-- The count of executed opcodes is that of the steps that succeeded, wherever they stand. -/
theorem executed_after (m : Machine) (ops : List Opcode) :
    (m.after ops).executed =
      m.executed + (Attempt.runEach step m ops).1.countP fun a => a.fault.isNone := by
  induction ops generalizing m with
  | nil => rfl
  | cons op rest ih =>
      rw [after_cons, ih, executed_step, Attempt.runEach, List.countP_cons]
      omega

/-- A run executes as many opcodes as succeed before the first that fails. -/
theorem executed_steps (m : Machine) (ops : List Opcode) :
    (m.steps ops).state.executed =
      m.executed + ((Attempt.runEach step m ops).1.takeWhile fun a => a.fault.isNone).length := by
  induction ops generalizing m with
  | nil => rfl
  | cons op rest ih =>
      have count := executed_step m op
      rw [steps_cons, Attempt.runEach]
      rcases m.step_eq_ok_or_fail op with ⟨n, h⟩ | ⟨n, trap, h⟩
      · rw [h] at count ⊢
        rw [Attempt.andThen_ok, ih n, List.takeWhile_cons_of_pos rfl, List.length_cons]
        simp only [Attempt.state_ok, Attempt.fault_ok, Option.isNone_none, if_true] at count
        simp only [Attempt.state_ok]
        omega
      · rw [h] at count ⊢
        exact count

/-- A run that succeeds executes all its opcodes. -/
theorem executed_of_steps_ok {m n : Machine} {ops : List Opcode} (h : m.steps ops = .ok n) :
    n.executed = m.executed + ops.length := by
  induction ops generalizing m with
  | nil =>
      cases h
      rfl
  | cons op rest ih =>
      rw [steps_cons] at h
      obtain ⟨k, step, later⟩ := Attempt.andThen_eq_ok_iff.1 h
      have count := executed_step m op
      rw [step] at count
      rw [ih later, List.length_cons, ← Nat.add_assoc, Nat.add_right_comm]
      exact congrArg (· + rest.length) count

/-- The same machine with more opcodes to its count. -/
def ahead (k : Nat) (m : Machine) : Machine := { m with executed := m.executed + k }

@[simp] theorem ahead_ahead (j k : Nat) (m : Machine) : ahead k (ahead j m) = ahead (j + k) m := by
  simp only [ahead, Nat.add_assoc]

theorem step_ahead (k : Nat) (m : Machine) (op : Opcode) :
    (ahead k m).step op = (m.step op).map (ahead k) := by
  rcases op.makes_or_refuses m.stack.values with ⟨v, rest, h⟩ | ⟨rest, trap, h⟩
  · rw [step_of_makes h, step_of_makes (m := ahead k m) h]
    by_cases room : rest.length < m.capacity
    · rw [if_pos room, Attempt.map_ok]
      refine (if_pos room).trans ?_
      simp only [advanced, holding, ahead, Nat.add_right_comm]
    · rw [if_neg room]
      exact if_neg room
  · rw [step_of_refuses h, step_of_refuses (m := ahead k m) h]
    rfl

theorem steps_ahead (k : Nat) (m : Machine) (ops : List Opcode) :
    (ahead k m).steps ops = (m.steps ops).map (ahead k) :=
  Attempt.runAll_map (step_ahead k) m ops

end Machine
end StackText
