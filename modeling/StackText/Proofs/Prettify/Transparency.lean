import StackText.Machine.Run
import StackText.Proofs.Machine.Run
import StackText.Proofs.Prettify.Sink

/-!
# Prettifying changes no run

The two negations that are put in front of an addition undo each other. They cannot
fail either: the opcode before them was a shift, and if the run got past it, there is
an integer on top of the stack and room for one (`AfterShift`). So a prettified
program ends as the program itself does, failures included, on any machine. It only
executes two opcodes more for every addition that was expanded and reached.
-/
namespace StackText

theorem Opcode.Makes.eq_int_of_isShift {op : Opcode} {s rest : List Value} {v : Value}
    (h : op.Makes s v rest) (shift : op.isShift) : ∃ n, v = .int n := by
  cases h <;> first | exact ⟨_, rfl⟩ | cases shift

namespace Machine

/-- What a machine is like after `last` was executed, as far as expansions rely on it. -/
def AfterShift (last : Option Opcode) (m : Machine) : Prop :=
  last.any Opcode.isShift → ∃ n rest, m.stack.values = .int n :: rest ∧ rest.length < m.capacity

theorem afterShift_none (m : Machine) : AfterShift none m := fun h => nomatch h

/-- A shift that succeeds leaves an integer on top. -/
theorem afterShift_step {m n : Machine} {op : Opcode} (h : m.step op = .ok n) :
    AfterShift (some op) n := by
  intro shift
  rcases m.step_cases op with ⟨v, rest, makes, room, step⟩ | ⟨_, _, _, _, step⟩ | ⟨_, _, _, step⟩
  · obtain rfl : m.advanced (v :: rest) = n := congrArg Attempt.state (step.symm.trans h)
    obtain ⟨k, rfl⟩ := makes.eq_int_of_isShift shift
    exact ⟨k, rest, rfl, room⟩
  all_goals cases step.symm.trans h

/-- Of negations of the integer on top only their parity counts. -/
theorem steps_negations {m : Machine} {b : Int64} {rest : List Value}
    (top : m.stack.values = .int b :: rest) (room : rest.length < m.capacity) (n : Nat) :
    m.steps (List.replicate n .intNeg) =
      .ok (ahead n (m.holding (.int (if n % 2 = 0 then b else -b) :: rest))) := by
  induction n generalizing m b with
  | zero =>
      rw [if_pos rfl, ← top]
      rfl
  | succ n ih =>
      have makes : Opcode.Makes .intNeg m.stack.values (.int (-b)) rest := by
        rw [top]
        exact .intNeg
      have once : m.step .intNeg = .ok (m.advanced (.int (-b) :: rest)) := by
        rw [step_of_makes makes, if_pos room]
      have others : (m.advanced (.int (-b) :: rest)).steps (List.replicate n .intNeg) = _ :=
        ih rfl room
      have parity : (if n % 2 = 0 then -b else - -b) = if (n + 1) % 2 = 0 then b else -b := by
        rw [Int64.neg_neg]
        split <;> split <;> first | rfl | omega
      rw [List.replicate_succ, steps_cons, once, Attempt.andThen_ok, others, parity]
      simp only [advanced, holding, ahead, Nat.add_assoc, Nat.add_comm 1]

/-- Two negations of an integer on top take it back to itself. -/
theorem steps_neg_neg {m : Machine} {last : Option Opcode} (h : AfterShift last m)
    (shift : last.any Opcode.isShift) :
    m.steps [.intNeg, .intNeg] = .ok (ahead 2 m) := by
  obtain ⟨b, rest, top, room⟩ := h shift
  have twice : m.steps [.intNeg, .intNeg] = .ok (ahead 2 (m.holding (.int b :: rest))) :=
    steps_negations top room 2
  rw [twice, ← top]
  rfl

end Machine

theorem Mode.expands_eq_true {mode : Mode} {last : Option Opcode} {op : Opcode}
    (h : mode.expands last op = true) : op = .intAdd ∧ last.any Opcode.isShift = true := by
  simp only [expands, Bool.and_eq_true, beq_iff_eq] at h
  exact ⟨h.1.2, h.2⟩

namespace Machine

/-- An expansion does what the opcode does, two executed opcodes later. -/
theorem steps_expansion {m : Machine} {mode : Mode} {last : Option Opcode} {op : Opcode}
    (h : AfterShift last m) :
    m.steps (mode.expansion last op) =
      (m.step op).map (ahead (if mode.expands last op then 2 else 0)) := by
  unfold Mode.expansion
  by_cases expands : mode.expands last op = true
  · obtain ⟨rfl, shift⟩ := Mode.expands_eq_true expands
    rw [if_pos expands, if_pos expands]
    calc m.steps ([.intNeg, .intNeg] ++ [.intAdd])
        = (ahead 2 m).steps [.intAdd] := by
          rw [steps_append, steps_neg_neg h shift, Attempt.andThen_ok]
      _ = (m.step .intAdd).map (ahead 2) := by
          rw [steps_cons, step_ahead]
          exact Attempt.andThen_ok_right _
  · rw [if_neg expands, if_neg expands]
    exact Attempt.andThen_ok_right (m.step op)

/-- The look-back carries the invariant: it names the opcode executed last. -/
theorem steps_prettifyAfter (mode : Mode) (program : List Opcode) {m : Machine}
    {last : Option Opcode} (h : AfterShift last m) :
    m.steps (prettifyAfter mode last program) =
      (m.steps program).map
        (ahead (2 * (expansionsAfter mode last (m.reached program)).length)) := by
  induction program generalizing m last with
  | nil => rfl
  | cons op rest ih =>
      rw [prettifyAfter, steps_append, steps_expansion h, steps_cons]
      rcases m.step_eq_ok_or_fail op with ⟨n, step⟩ | ⟨n, trap, step⟩
      · rw [reached_cons_of_ok step, step, Attempt.map_ok, Attempt.andThen_ok, Attempt.andThen_ok,
          steps_ahead, ih (afterShift_step step), Attempt.map_map, expansionsAfter]
        simp only [ahead_ahead, List.length_append]
        split <;> simp only [List.length_cons, List.length_nil, Nat.mul_add, Nat.add_comm]
      · rw [reached_cons_of_fail step, step, Attempt.map_fail, Attempt.andThen_fail,
          Attempt.andThen_fail, Attempt.map_fail, expansionsAfter, expansionsAfter]
        split <;> rfl

end Machine

/-- The result of a run: the failure that stopped it, or else the top of the stack. -/
theorem run_eq (program : List Opcode) :
    run program =
      match (Machine.fresh.steps program).fault with
      | some trap => .error (.trap trap)
      | none => (Machine.fresh.steps program).state.result := by
  unfold run Machine.runTraced
  rcases Machine.fresh.steps program with ⟨m, _ | trap⟩ <;> rfl

/-- On any machine, however its stack is filled, a prettified program fails exactly
where the program fails and leaves the same stack, also then. It has executed two opcodes more
for each expansion in what the program itself has reached. -/
theorem steps_prettify (mode : Mode) (m : Machine) (program : List Opcode) :
    ∃ pretty, PrettySink.collect mode program = .ok pretty ∧
      (m.steps pretty).fault = (m.steps program).fault ∧
      (m.steps pretty).state.stack = (m.steps program).state.stack ∧
      (m.steps pretty).state.executed =
        (m.steps program).state.executed +
          2 * (PrettySink.collectTraced mode (m.reached program)).events.length ∧
      run pretty = run program := by
  have transparent (m : Machine) := m.steps_prettifyAfter mode program m.afterShift_none
  refine ⟨prettify mode program, PrettySink.collect_eq mode program, ?_, ?_, ?_, ?_⟩
  · rw [prettify, transparent]
    rfl
  · rw [prettify, transparent]
    rfl
  · rw [prettify, transparent, PrettySink.collectTraced_eq]
    rfl
  · rw [run_eq, run_eq, prettify, transparent]
    rfl

end StackText
