import StackText.Attempt
import StackText.IoError

/-!
# Sinks for bytes

A `ByteSink` stores bytes, but single calls to it can go wrong. Its schedule says
what becomes of the calls to come; once the schedule is used up, every call
succeeds. `ByteSink.write` makes a call again if it was interrupted, and treats a
call that stored nothing as a failure.
-/
namespace StackText

/-- What becomes of one call to a sink with one byte. -/
inductive CallOutcome where
  | stored
  /-- The call succeeds without storing the byte. -/
  | nothing
  | failed (reason : IoError)
  deriving DecidableEq, Repr

structure ByteSink where
  bytes : Array UInt8 := #[]
  /-- The outcomes of the calls to come. -/
  schedule : List CallOutcome := []
  /-- Why flushing fails, if it does. -/
  flushFault : Option IoError := none
  /-- How often the sink was flushed, in vain or not. -/
  flushes : Nat := 0
  deriving Repr

namespace ByteSink

/-- Calls the sink with a byte until a call is not interrupted. -/
def writeWith (byte : UInt8) (sink : ByteSink) : List CallOutcome → Attempt IoError ByteSink
  | [] => .ok { sink with bytes := sink.bytes.push byte, schedule := [] }
  | .stored :: rest => .ok { sink with bytes := sink.bytes.push byte, schedule := rest }
  | .nothing :: rest => .fail { sink with schedule := rest } .nothingWritten
  | .failed reason :: rest =>
      if reason.kind = .interrupted then writeWith byte sink rest
      else .fail { sink with schedule := rest } reason

def write (sink : ByteSink) (byte : UInt8) : Attempt IoError ByteSink :=
  writeWith byte sink sink.schedule

def flush (sink : ByteSink) : Attempt IoError ByteSink :=
  ⟨{ sink with flushes := sink.flushes + 1 }, sink.flushFault⟩

def toList (sink : ByteSink) : List UInt8 := sink.bytes.toList

/-- The outcomes of calls by their numbers, as a schedule: calls that are not
mentioned store their byte, and of two mentions of one call the first counts. -/
def scheduleOf (outcomes : List (Nat × CallOutcome)) : List CallOutcome :=
  let calls := outcomes.foldl (fun n o => max n (o.1 + 1)) 0
  (List.range calls).map fun call => (outcomes.lookup call).getD .stored

end ByteSink
end StackText
