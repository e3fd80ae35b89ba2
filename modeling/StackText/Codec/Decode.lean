import StackText.Machine.Run
import StackText.Scanner
import StackText.Settings

/-!
# Decoding

To decode is to execute opcodes as the scanner finds them and to return the top of
the stack at the end of the input. The first failure ends it, be it an opcode that
cannot be executed or a read that fails; nothing behind it is looked at.
-/
namespace StackText

inductive DecodeError where
  /-- The program has no result. -/
  | run (error : RunError)
  /-- The input could not be read. -/
  | read (reason : IoError)
  deriving DecidableEq, Repr

def DecodeError.message : DecodeError → String
  | .run error => error.message
  | .read reason => reason.message

/-- Executes what scans answer with until one of them fails to give an opcode. -/
def decodeScans (m : Machine) : List Scan → Traced (Except DecodeError Value)
  | [] => ⟨m.result.mapError .run, []⟩
  | s :: rest =>
      match s.answer with
      | .error reason => ⟨.error (.read reason), s.events⟩
      | .ok none =>
          ⟨m.result.mapError .run,
            s.events ++ [.decoded s.scanner.offset s.scanner.skipped m.executed]⟩
      | .ok (some op) =>
          let a := m.step op
          match a.fault with
          | none => (decodeScans a.state rest).after s.events
          | some trap =>
              ⟨.error (.run (.trap trap)), s.events ++ [.decodeAborted s.scanner.offset trap]⟩

/-- Decodes one value from a source and tells what happened on the way. -/
def decodeTraced (settings : Settings) (source : Source) : Traced (Except DecodeError Value) :=
  decodeScans settings.machine (Scanner.ofSource source .ascii).requestsToEnd

def decode (settings : Settings) (source : Source) : Except DecodeError Value :=
  (decodeTraced settings source).result

def decodeBytes (settings : Settings) (bytes : List UInt8) : Except DecodeError Value :=
  decode settings (.ofBytes bytes)

end StackText
