import StackText.Sink.Opcodes
import StackText.Program

/-!
# Emitting values

An `Emitter` walks through a value and hands the opcodes that build it to a sink, each
as it comes to it, and counts those that the sink takes. A refusal ends the walk at
once, however deep in the value it has got; the next value starts afresh.
-/
namespace StackText

structure Emitter (σ : Type) where
  sink : σ
  /-- How many opcodes the sink has taken. -/
  emitted : Nat := 0

namespace Emitter
variable {σ : Type} [OpcodeSink σ]

def put (e : Emitter σ) (op : Opcode) : Attempt IoError (Emitter σ) :=
  ((OpcodeSink.put e.sink op).map fun sink => { e with sink }).andThen
    fun e => .ok { e with emitted := e.emitted + 1 }

/-- Emits an opcode where it is wanted. -/
def putIf (wanted : Bool) (op : Opcode) (e : Emitter σ) : Attempt IoError (Emitter σ) :=
  if wanted then e.put op else .ok e

/-- Walks down the bits of a number below a place. Of the bits of the given length, each
but the first doubles what has been built, and each that is set adds one. -/
def walk (n length : Nat) : Nat → Emitter σ → Attempt IoError (Emitter σ)
  | 0, e => .ok e
  | place + 1, e =>
      (e.putIf (place + 1 ≠ length) .intShl).andThen fun e =>
        (e.putIf (n.testBit place) .intInc).andThen fun e => walk n length place e

/-- How many bits a number has, from its most significant one on. -/
def bitLength (n : Nat) : Nat := if n = 0 then 0 else n.log2 + 1

/-- Emits the integer with the given bits. -/
def bits (e : Emitter σ) (n : UInt64) : Attempt IoError (Emitter σ) :=
  (e.put .intNew).andThen fun e => e.walk n.toNat (bitLength n.toNat) (bitLength n.toNat)

def int (e : Emitter σ) (n : Int64) : Attempt IoError (Emitter σ) :=
  (e.bits (if n < 0 then (-n).toUInt64 else n.toUInt64)).andThen fun e =>
    e.putIf (n < 0) .intNeg

def float (e : Emitter σ) (x : Binary64) : Attempt IoError (Emitter σ) :=
  if x = .nan then e.put .floatNan
  else if x.isInfinite then
    (e.put .floatInf).andThen fun e => e.putIf x.isNegative .floatNeg
  else (e.bits x.bits).andThen fun e => e.put .intToFloat

def byte (e : Emitter σ) (b : UInt8) : Attempt IoError (Emitter σ) :=
  (e.bits b.toUInt64).andThen fun e => e.put .strAdd

def str (e : Emitter σ) (bytes : Bytes) : Attempt IoError (Emitter σ) :=
  (e.put .strNew).andThen fun e => Attempt.runAll byte e bytes

mutual

/-- Emits a value. -/
def value (e : Emitter σ) : Value → Attempt IoError (Emitter σ)
  | .int n => e.int n
  | .uint n => (e.bits n).andThen fun e => e.put .intToUint
  | .float x => e.float x
  | .str bytes => e.str bytes
  | .bool b => (e.put .boolNew).andThen fun e => e.putIf b .boolNeg
  | .nil => e.put .nilNew
  | .object entries => (e.put .objNew).andThen fun e => e.entries entries
  | .array items => (e.put .arrNew).andThen fun e => e.items items
  termination_by structural v => v

/-- Emits the entries of an object, each behind its key. -/
def entries (e : Emitter σ) : List (Bytes × Value) → Attempt IoError (Emitter σ)
  | [] => .ok e
  | (key, v) :: rest =>
      (e.str key).andThen fun e => (e.value v).andThen fun e =>
        (e.put .objAdd).andThen fun e => e.entries rest
  termination_by structural entries => entries

/-- Emits the items of an array. -/
def items (e : Emitter σ) : List Value → Attempt IoError (Emitter σ)
  | [] => .ok e
  | v :: rest =>
      (e.value v).andThen fun e => (e.put .arrAdd).andThen fun e => e.items rest
  termination_by structural items => items

end

/-- The opcodes that a new emitter leaves on a new tape. -/
def collect (v : Value) : Except IoError (List Opcode) :=
  (({ sink := {} } : Emitter OpcodeTape).value v).toExcept.map fun e => e.sink.toList

end Emitter
end StackText
