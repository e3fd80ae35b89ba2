import StackText.Opcode
import StackText.Value.Basic

/-!
# The program of a value

`Value.program` describes a value by opcodes that build it. A number is built from
its bits, from the most significant one down: double for every bit after the first,
add one for every bit that is set. Strings, arrays and objects start empty and take
one byte, item or entry at a time. No program copies, adds or halves.
-/
namespace StackText
namespace Program

/-- Turns zero on top of the stack into `n`. -/
def count (n : Nat) : List Opcode :=
  if n = 0 then []
  else if n = 1 then [.intInc]
  else count (n / 2) ++ .intShl :: (if n % 2 = 1 then [.intInc] else [])

/-- Builds the integer with the given bits. -/
def bits (n : UInt64) : List Opcode := .intNew :: count n.toNat

/-- Builds an integer from its magnitude. The magnitude of the least integer wraps
around to that integer itself, and so does its negation. -/
def int (n : Int64) : List Opcode :=
  if n < 0 then bits (-n).toUInt64 ++ [.intNeg] else bits n.toUInt64

def uint (n : UInt64) : List Opcode := bits n ++ [.intToUint]

/-- The canonical NaN and the infinities have opcodes of their own; every other
number, any other NaN included, is built from its bits. -/
def float (x : Binary64) : List Opcode :=
  if x = .nan then [.floatNan]
  else if x.isInfinite then .floatInf :: (if x.isNegative then [.floatNeg] else [])
  else bits x.bits ++ [.intToFloat]

def appendBytes (bytes : Bytes) : List Opcode :=
  bytes.flatMap fun b => bits b.toUInt64 ++ [.strAdd]

def str (bytes : Bytes) : List Opcode := .strNew :: appendBytes bytes

def bool (b : Bool) : List Opcode := .boolNew :: (if b then [.boolNeg] else [])

end Program

namespace Value

mutual

/-- Builds a value on top of the stack. -/
def program : Value → List Opcode
  | .int n => Program.int n
  | .uint n => Program.uint n
  | .float x => Program.float x
  | .str bytes => Program.str bytes
  | .bool b => Program.bool b
  | .nil => [.nilNew]
  | .object entries => .objNew :: setEntries entries
  | .array items => .arrNew :: appendItems items
  termination_by structural v => v

def setEntries : List (Bytes × Value) → List Opcode
  | [] => []
  | (key, v) :: rest => Program.str key ++ program v ++ .objAdd :: setEntries rest
  termination_by structural entries => entries

def appendItems : List Value → List Opcode
  | [] => []
  | v :: rest => program v ++ .arrAdd :: appendItems rest
  termination_by structural items => items

end

end Value
end StackText
