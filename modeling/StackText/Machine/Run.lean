import StackText.Machine.Basic
import StackText.Trace

/-!
# Running a whole program

A program is run on a fresh machine, and its result is what it leaves on top of the
stack. It has none if an opcode fails or if the stack is empty at the end.
-/
namespace StackText

inductive RunError where
  | trap (trap : Trap)
  | emptyStack
  deriving DecidableEq, Repr

def RunError.message : RunError → String
  | .trap t => t.message
  | .emptyStack => "stack is empty"

/-- The result of a machine: the top of its stack. -/
def Machine.result (m : Machine) : Except RunError Value :=
  match m.top? with
  | some v => .ok v
  | none => .error .emptyStack

/-- Runs a program from a machine on. The run is reported once it is complete, even
if it leaves nothing behind. -/
def Machine.runTraced (m : Machine) (program : List Opcode) : Traced (Except RunError Value) :=
  let after := m.steps program
  match after.fault with
  | some trap => ⟨.error (.trap trap), []⟩
  | none => ⟨after.state.result, [.interpreted after.state.executed after.state.depth]⟩

/-- The result of a program on a fresh machine. -/
def run (program : List Opcode) : Except RunError Value := (Machine.fresh.runTraced program).result

end StackText
