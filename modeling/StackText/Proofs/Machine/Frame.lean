import StackText.Proofs.Machine.Run

/-!
# What lies below takes no part

Put values below those of a machine, and as much more room. An opcode that finds its
operands does the same as before and leaves the new values in place; only an operand that
was missing may now be found among them. So a run keeps its course above whatever lies
below, up to its end or its failure, unless it fails for want of an operand.
-/
namespace StackText

/-- The trap of the same opcode where so many more values have room. -/
def Trap.raise (more : Nat) : Trap → Trap
  | .overflow op capacity => .overflow op (capacity + more)
  | .underflow op => .underflow op
  | .mismatch op expected actual => .mismatch op expected actual

namespace Opcode
variable {op : Opcode} {s rest : List Value}

theorem Makes.append {v : Value} (h : op.Makes s v rest) (below : List Value) :
    op.Makes (s ++ below) v (rest ++ below) := by
  cases h <;> constructor

/-- The operand that stops an opcode is looked at before anything below. -/
theorem Refuses.append {wants : List (Option Kind)} {trap : Trap}
    (h : op.Refuses wants s rest trap) (below : List Value) (present : trap ≠ .underflow op) :
    op.Refuses wants (s ++ below) (rest ++ below) trap := by
  induction h with
  | missing => exact absurd rfl present
  | wrong unsuited => exact .wrong unsuited
  | later suits _ ih => exact .later suits (ih present)

theorem Refuses.raise_eq {wants : List (Option Kind)} {trap : Trap}
    (h : op.Refuses wants s rest trap) (more : Nat) : trap.raise more = trap := by
  induction h with
  | missing => rfl
  | wrong _ => rfl
  | later _ _ ih => exact ih

end Opcode

namespace Machine

/-- The machine with values below its own, and with room for them. -/
def above (below : List Value) (m : Machine) : Machine :=
  { m with stack := ⟨m.capacity + below.length, m.stack.values ++ below⟩ }

/-- What an attempt comes to above other values. -/
def attemptAbove (below : List Value) (a : Attempt Trap Machine) : Attempt Trap Machine :=
  ⟨a.state.above below, a.fault.map (Trap.raise below.length)⟩

theorem step_above {m : Machine} {op : Opcode} (below : List Value)
    (found : (m.step op).fault ≠ some (.underflow op)) :
    (m.above below).step op = attemptAbove below (m.step op) := by
  rcases op.makes_or_refuses m.stack.values with ⟨v, rest, makes⟩ | ⟨rest, trap, refuses⟩
  · have framed : op.Makes (m.above below).stack.values v (rest ++ below) := makes.append below
    have depth : (rest ++ below).length < (m.above below).capacity ↔ rest.length < m.capacity := by
      rw [List.length_append]
      exact Nat.add_lt_add_iff_right
    rw [step_of_makes framed, step_of_makes makes]
    by_cases room : rest.length < m.capacity
    · rw [if_pos room, if_pos (depth.2 room)]
      rfl
    · rw [if_neg room, if_neg (mt depth.1 room)]
      rfl
  · have present : trap ≠ .underflow op := by
      rintro rfl
      rw [step_of_refuses refuses] at found
      exact found rfl
    have framed : op.Refuses op.wants (m.above below).stack.values (rest ++ below) trap :=
      refuses.append below present
    rw [step_of_refuses framed, step_of_refuses refuses]
    exact congrArg (Attempt.fail _) (refuses.raise_eq below.length).symm

theorem reached_above {m : Machine} {ops : List Opcode} (below : List Value)
    (found : ∀ op, (m.steps ops).fault ≠ some (.underflow op)) :
    (m.above below).reached ops = m.reached ops ∧
      (m.above below).steps ops = attemptAbove below (m.steps ops) := by
  induction ops generalizing m with
  | nil => exact ⟨rfl, rfl⟩
  | cons op rest ih =>
      rcases m.step_eq_ok_or_fail op with ⟨n, step⟩ | ⟨n, trap, step⟩
      · have framed : (m.above below).step op = attemptAbove below (m.step op) :=
          step_above below (by rw [step]; nofun)
        rw [step] at framed
        rw [steps_cons, step, Attempt.andThen_ok] at found
        obtain ⟨reached, run⟩ := ih found
        rw [reached_cons_of_ok framed, reached_cons_of_ok step, steps_cons, steps_cons, framed,
          step]
        exact ⟨congrArg (op :: ·) reached, run⟩
      · rw [steps_cons, step, Attempt.andThen_fail] at found
        have framed : (m.above below).step op = attemptAbove below (m.step op) :=
          step_above below (by rw [step]; exact found op)
        rw [step] at framed
        rw [reached_cons_of_fail framed, reached_cons_of_fail step, steps_cons, steps_cons, framed,
          step]
        exact ⟨rfl, rfl⟩

/-- Values below a machine, with room for them, stay where they are, and the run above
them is the run without them: it ends with the same values after as many opcodes, or it
fails at the same opcode, leaves the same values and reports the same trap, an overflow
with the greater capacity. Only the want of an operand can come out differently, and then
the runs part at the opcode that wants it. -/
theorem steps_above (m : Machine) (below : List Value) (ops : List Opcode) :
    (∀ n, m.steps ops = .ok n → (m.above below).steps ops = .ok (n.above below)) ∧
      (∀ n op expected actual, m.steps ops = .fail n (.mismatch op expected actual) →
        (m.above below).steps ops = .fail (n.above below) (.mismatch op expected actual)) ∧
      (∀ n op capacity, m.steps ops = .fail n (.overflow op capacity) →
        (m.above below).steps ops =
          .fail (n.above below) (.overflow op (capacity + below.length))) ∧
      ((∀ op, (m.steps ops).fault ≠ some (.underflow op)) →
        (m.above below).reached ops = m.reached ops) ∧
      ∀ n trap, m.steps ops = .fail n trap →
        ∃ before op rest k, ops = before ++ op :: rest ∧ m.steps before = .ok k ∧
          k.step op = .fail n trap ∧ (m.above below).steps before = .ok (k.above below) := by
  have framed {ops : List Opcode} (found : ∀ op, (m.steps ops).fault ≠ some (.underflow op)) :=
    (reached_above below found).2
  have succeeds {ops : List Opcode} {n : Machine} (run : m.steps ops = .ok n) :
      (m.above below).steps ops = .ok (n.above below) := by
    rw [framed (by rw [run]; nofun), run]
    rfl
  refine ⟨fun n => succeeds, ?_, ?_, fun found => (reached_above below found).1, ?_⟩
  · intro n op expected actual run
    rw [framed (by rw [run]; nofun), run]
    rfl
  · intro n op capacity run
    rw [framed (by rw [run]; nofun), run]
    rfl
  · intro n trap run
    obtain ⟨before, op, rest, k, split, come, fails⟩ := exists_failing_step run
    exact ⟨before, op, rest, k, split, come, fails, succeeds come⟩

/-- Above an integer and a string: a run that succeeds, one that an operand stops, and an
overflow, which reports room for two values more. An addition that lacked its second
addend finds it below. -/
theorem steps_above_string :
    let m : Machine := ⟨⟨1, [.int 5]⟩, 3⟩
    let below : List Value := [.int 2, .str [7]]
    (m.above below).steps [.intNeg, .intInc] = .ok ⟨⟨3, [.int (-4), .int 2, .str [7]]⟩, 5⟩ ∧
      (m.above below).steps [.boolNeg, .nilNew] =
        .fail ⟨⟨3, [.int 2, .str [7]]⟩, 3⟩ (.mismatch .boolNeg .bool .int) ∧
      (m.above below).steps [.intInc, .nilNew] =
        .fail ⟨⟨3, [.int 6, .int 2, .str [7]]⟩, 4⟩ (.overflow .nilNew 3) ∧
      m.steps [.intAdd] = .fail ⟨⟨1, []⟩, 3⟩ (.underflow .intAdd) ∧
      (m.above below).steps [.intAdd] = .ok ⟨⟨3, [.int 7, .str [7]]⟩, 4⟩ := by
  intro m below
  obtain ⟨succeeds, -, -, -, -⟩ := steps_above m below [.intNeg, .intInc]
  obtain ⟨-, mismatch, -, -, -⟩ := steps_above m below [.boolNeg, .nilNew]
  obtain ⟨-, -, overflow, -, -⟩ := steps_above m below [.intInc, .nilNew]
  exact ⟨succeeds ⟨⟨1, [.int (-4)]⟩, 5⟩ rfl, mismatch ⟨⟨1, []⟩, 3⟩ .boolNeg .bool .int rfl,
    overflow ⟨⟨1, [.int 6]⟩, 4⟩ .nilNew 1 rfl, rfl, rfl⟩

end Machine
end StackText
