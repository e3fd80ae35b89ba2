import StackText.Opcode
import StackText.Value.Basic

/-!
# Traps

An opcode cannot be executed for one of three reasons: its result finds no room,
an operand is missing, or an operand has the wrong kind. A `Trap` names the opcode
and what was wrong.
-/
namespace StackText

inductive Trap where
  | overflow (op : Opcode) (capacity : Nat)
  | underflow (op : Opcode)
  | mismatch (op : Opcode) (expected actual : Kind)
  deriving DecidableEq, Repr

def Trap.message : Trap → String
  | .overflow op capacity =>
      "stack overflow while executing " ++ op.mnemonic ++
        " (capacity " ++ toString capacity ++ ")"
  | .underflow op => "stack underflow while executing " ++ op.mnemonic
  | .mismatch op expected actual =>
      "type mismatch while executing " ++ op.mnemonic ++
        ": expected " ++ expected.name ++ ", got " ++ actual.name

end StackText
