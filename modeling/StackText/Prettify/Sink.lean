import StackText.Sink.Opcodes
import StackText.Trace

/-!
# Prettifying on the way to a sink

A `PrettySink` stands in front of a sink and hands it the expansion of every opcode
that is asked for. An opcode counts as asked for only once its whole expansion has
been taken; after a failure the one before it still decides about the next.
-/
namespace StackText

structure PrettySink (σ : Type) where
  sink : σ
  mode : Mode
  /-- The opcode asked for last, among those that were taken. -/
  last : Option Opcode := none
  /-- The expansions so far. -/
  events : Array Event := #[]

namespace PrettySink
variable {σ : Type} [OpcodeSink σ]

/-- Reports an expansion before it is carried out. -/
def report (p : PrettySink σ) (op : Opcode) : PrettySink σ :=
  if p.mode.expands p.last op then { p with events := p.events.push (.expanding p.last op) }
  else p

def put (p : PrettySink σ) (op : Opcode) : Attempt IoError (PrettySink σ) :=
  let p := p.report op
  ((OpcodeSink.putAll p.sink (p.mode.expansion p.last op)).map fun sink => { p with sink }).andThen
    fun p => .ok { p with last := some op }

def flush (p : PrettySink σ) : Attempt IoError (PrettySink σ) :=
  (OpcodeSink.flush p.sink).map fun sink => { p with sink }

instance : OpcodeSink (PrettySink σ) := ⟨put, flush⟩

/-- Hands a program to a new prettifier in front of a new tape. What the tape holds then is
the result. -/
def collectTraced (mode : Mode) (program : List Opcode) :
    Traced (Except IoError (List Opcode)) :=
  let a := OpcodeSink.putAll ({ sink := {}, mode } : PrettySink OpcodeTape) program
  ⟨a.toExcept.map fun p => p.sink.toList, a.state.events.toList⟩

def collect (mode : Mode) (program : List Opcode) : Except IoError (List Opcode) :=
  (collectTraced mode program).result

/-- A report changes nothing but the events. -/
theorem put_eq (p : PrettySink σ) (op : Opcode) :
    p.put op =
      ((OpcodeSink.putAll p.sink (p.mode.expansion p.last op)).map fun sink =>
        { p with sink, events := (p.report op).events }).andThen
          fun p => .ok { p with last := some op } := by
  have reported : p.report op = { p with events := (p.report op).events } := by
    unfold report
    split <;> rfl
  rw [put, reported]

end PrettySink
end StackText
