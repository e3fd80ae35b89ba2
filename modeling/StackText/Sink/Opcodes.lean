import StackText.Attempt
import StackText.IoError
import StackText.Opcode

/-!
# Sinks for opcodes

An `OpcodeSink` takes opcodes one at a time and may refuse one. The simplest sink
is a tape, which keeps what it takes and refuses the calls that it is told to.
-/
namespace StackText

class OpcodeSink (σ : Type) where
  /-- Hands one opcode to the sink. -/
  put : σ → Opcode → Attempt IoError σ
  /-- Asks the sink to pass on whatever it holds back. -/
  flush : σ → Attempt IoError σ

/-- Hands opcodes to a sink until it refuses one. -/
def OpcodeSink.putAll {σ : Type} [OpcodeSink σ] (sink : σ) (ops : List Opcode) :
    Attempt IoError σ :=
  Attempt.runAll OpcodeSink.put sink ops

structure OpcodeTape where
  stored : Array Opcode := #[]
  /-- How many calls there have been, refused ones included. -/
  calls : Nat := 0
  /-- Which calls to refuse, counted from zero. -/
  refuses : Nat → Bool := fun _ => false
  /-- Why a call is refused. -/
  reason : Nat → IoError := fun _ => ⟨.named "BrokenPipe", "sink failed"⟩

namespace OpcodeTape

def put (tape : OpcodeTape) (op : Opcode) : Attempt IoError OpcodeTape :=
  if tape.refuses tape.calls then
    .fail { tape with calls := tape.calls + 1 } (tape.reason tape.calls)
  else .ok { tape with stored := tape.stored.push op, calls := tape.calls + 1 }

instance : OpcodeSink OpcodeTape where
  put := put
  flush := .ok

def toList (tape : OpcodeTape) : List Opcode := tape.stored.toList

end OpcodeTape
end StackText
