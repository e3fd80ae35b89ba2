/-!
# The instruction set

A program is a list of opcodes. Every opcode takes a fixed number of values off
a stack and puts exactly one back, so a program describes the value that it
leaves on top. The set is closed: `Opcode.all` lists it in its canonical order
and `Opcode.ofMnemonic?` undoes `Opcode.mnemonic`.
-/
namespace StackText

inductive Opcode where
  /-- Puts the integer zero on the stack. -/
  | intNew
  /-- Adds one to an integer. -/
  | intInc
  /-- Doubles an integer. -/
  | intShl
  | intAdd
  | intNeg
  /-- Halves an integer, rounding down, so that the sign stays. -/
  | intShr
  /-- Reads the bits of an integer as a floating-point number. -/
  | intToFloat
  /-- Reads the bits of an integer as an unsigned one. -/
  | intToUint
  | floatInf
  /-- Puts the canonical NaN on the stack. -/
  | floatNan
  | floatNeg
  | strNew
  /-- Appends the low byte of an integer to a string. -/
  | strAdd
  | objNew
  | objAdd
  | arrNew
  | arrAdd
  /-- Puts `false` on the stack. -/
  | boolNew
  | boolNeg
  | nilNew
  /-- Copies the top of the stack. -/
  | dup
  deriving DecidableEq, Repr, Inhabited

namespace Opcode

/-- The instruction set in its canonical order. -/
def all : List Opcode :=
  [.intNew, .intInc, .intShl, .intAdd, .intNeg, .intShr, .intToFloat, .intToUint,
   .floatInf, .floatNan, .floatNeg, .strNew, .strAdd, .objNew, .objAdd,
   .arrNew, .arrAdd, .boolNew, .boolNeg, .nilNew, .dup]

/-- A mnemonic is one letter for the kind of value and three for the action. -/
def mnemonic : Opcode → String
  | .intNew => "Inew"
  | .intInc => "Iinc"
  | .intShl => "Ishl"
  | .intAdd => "Iadd"
  | .intNeg => "Ineg"
  | .intShr => "Isht"
  | .intToFloat => "Itof"
  | .intToUint => "Itou"
  | .floatInf => "Finf"
  | .floatNan => "Fnan"
  | .floatNeg => "Fneg"
  | .strNew => "Snew"
  | .strAdd => "Sadd"
  | .objNew => "Onew"
  | .objAdd => "Oadd"
  | .arrNew => "Anew"
  | .arrAdd => "Aadd"
  | .boolNew => "Bnew"
  | .boolNeg => "Bneg"
  | .nilNew => "Nnew"
  | .dup => "Gdup"

/-- The number of values taken off the stack before the single push. Copying the
top needs a value but takes none away, so its arity is zero. -/
def arity : Opcode → Nat
  | .intNew | .floatInf | .floatNan | .strNew | .objNew | .arrNew | .boolNew | .nilNew | .dup => 0
  | .intInc | .intShl | .intNeg | .intShr | .intToFloat | .intToUint | .floatNeg | .boolNeg => 1
  | .intAdd | .strAdd | .arrAdd => 2
  | .objAdd => 3

/-- The opcode with the given mnemonic; the spelling has to be exact. -/
def ofMnemonic? (name : String) : Option Opcode :=
  all.find? fun op => op.mnemonic == name

theorem mem_all (op : Opcode) : op ∈ all := by
  cases op <;> decide

theorem nodup_all : all.Nodup := by decide

theorem ofMnemonic?_mnemonic (op : Opcode) : ofMnemonic? op.mnemonic = some op := by
  cases op <;> decide

end Opcode
end StackText
