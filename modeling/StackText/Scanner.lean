import StackText.IoError
import StackText.Alphabet
import StackText.Trace

/-!
# Scanning input for tokens

Input arrives in pieces. A `Source` lists what the reads to come will give: a chunk
of bytes, an end, or a failure; after the last of them every read gives an end. A
`Scanner` returns one opcode at a time. It passes over filler bytes and interrupted
reads, and goes on where it stopped, also after an end or a failure.
-/
namespace StackText

/-- What one read of the input gives. -/
inductive ReadEvent where
  | chunk (bytes : List UInt8)
  | endOfInput
  | failed (reason : IoError)
  deriving DecidableEq, Repr

abbrev Source := List ReadEvent

/-- What arrives, byte by byte. -/
inductive Arrival where
  | byte (b : UInt8)
  | endOfInput
  | failed (reason : IoError)
  deriving DecidableEq, Repr

def ReadEvent.arrivals : ReadEvent → List Arrival
  | .chunk bytes => bytes.map .byte
  | .endOfInput => [.endOfInput]
  | .failed reason => [.failed reason]

namespace Source

/-- Everything that arrives from a source, in order. -/
def arrivals (source : Source) : List Arrival := source.flatMap ReadEvent.arrivals

/-- The source that gives these bytes at once. -/
def ofBytes (bytes : List UInt8) : Source := [.chunk bytes]

end Source

structure Scanner where
  alphabet : Alphabet
  /-- What has not been consumed. -/
  pending : List Arrival
  /-- How many bytes have been consumed. -/
  offset : Nat := 0
  /-- How many of them were filler. -/
  skipped : Nat := 0

/-- The answer to one request of an opcode, with the events on the way to it and
the scanner for the requests to come. The answer is an opcode, nothing at an end of
the input, or the failure of a read. -/
structure Scan where
  answer : Except IoError (Option Opcode)
  events : List Event
  scanner : Scanner

/-- Whether the answer is that the input has ended. -/
def Scan.isEnd (s : Scan) : Bool :=
  match s.answer with
  | .ok none => true
  | _ => false

/-- Puts an event in front of the others. -/
def Scan.after (event : Event) (s : Scan) : Scan := { s with events := event :: s.events }

namespace Scanner

def ofSource (source : Source) (alphabet : Alphabet) : Scanner :=
  { alphabet, pending := source.arrivals }

/-- Looks for the next token among arrivals, from given counts on. -/
def scan (alphabet : Alphabet) (offset skipped : Nat) : List Arrival → Scan
  | [] => ⟨.ok none, [], ⟨alphabet, [], offset, skipped⟩⟩
  | .endOfInput :: rest => ⟨.ok none, [], ⟨alphabet, rest, offset, skipped⟩⟩
  | .failed reason :: rest =>
      if reason.kind = .interrupted then scan alphabet offset skipped rest
      else ⟨.error reason, [], ⟨alphabet, rest, offset, skipped⟩⟩
  | .byte b :: rest =>
      match alphabet.opcode? b with
      | some op => ⟨.ok (some op), [], ⟨alphabet, rest, offset + 1, skipped⟩⟩
      | none => (scan alphabet (offset + 1) (skipped + 1) rest).after (.fillerSkipped b offset)

/-- Asks for the next opcode. -/
def next (s : Scanner) : Scan := scan s.alphabet s.offset s.skipped s.pending

/-- Asks for opcodes a number of times, whatever the answers. -/
def requests (s : Scanner) : Nat → List Scan
  | 0 => []
  | n + 1 =>
      let first := s.next
      first :: first.scanner.requests n

/-- Any answer but the end of the input uses something up. -/
theorem scan_pending_lt {alphabet : Alphabet} {offset skipped : Nat}
    {arrivals : List Arrival}
    (h : ¬ (scan alphabet offset skipped arrivals).isEnd) :
    (scan alphabet offset skipped arrivals).scanner.pending.length < arrivals.length := by
  fun_induction scan alphabet offset skipped arrivals with
  | case1 => exact absurd rfl h
  | case2 => exact absurd rfl h
  | case3 _ _ _ _ _ ih => exact Nat.lt_succ_of_lt (ih h)
  | case4 => exact Nat.lt_succ_self _
  | case5 => exact Nat.lt_succ_self _
  | case6 _ _ _ _ _ ih => exact Nat.lt_succ_of_lt (ih h)

/-- Asks for opcodes up to the first end of the input, that one included. Failures
in between do not stop it. -/
def requestsToEnd (s : Scanner) : List Scan :=
  if _h : s.next.isEnd then [s.next] else s.next :: s.next.scanner.requestsToEnd
termination_by s.pending.length
decreasing_by exact scan_pending_lt _h

end Scanner

/-- The opcodes that scans answer with, up to the first end or failure, and that
failure if there is one. -/
def Scan.opcodes : List Scan → List Opcode × Option IoError
  | [] => ([], none)
  | s :: rest =>
      match s.answer with
      | .ok none => ([], none)
      | .ok (some op) => (op :: (opcodes rest).1, (opcodes rest).2)
      | .error reason => ([], some reason)

end StackText
