import StackText.Codec.RoundTrip
import StackText.CommandLine.Files
import StackText.CommandLine.Request
import StackText.Value.Display

/-!
# Carrying out requests

A request turns into what is written and an exit code: zero after success, one after
a failure, which is reported in one line, and two after a misuse of the command
line. The input is asked for only by the commands that read one.
-/
namespace StackText.CommandLine

/-- What the program leaves behind. -/
structure Outcome where
  code : UInt8 := 0
  out : Bytes := []
  err : String := ""

/-- What the program calls itself. -/
def versionText : String := "watson 0.1.0"

namespace Outcome

/-- The outcome of a failure, with what was written before it. -/
def failure (out : Bytes) (message : String) : Outcome :=
  { code := 1, out, err := "Error: " ++ message ++ "\n" }

/-- A text and the end of a line. -/
def line (text : Bytes) : Bytes := text ++ ['\n'.toUInt8]

end Outcome

/-- Where a command reads its input: from a named file, from the standard input, or
not at all. -/
def Command.input? : Command → Option (Option String)
  | .decode file | .ops file | .pretty file _ => some file
  | .encode .. => none

/-- The outcome of writing a value. -/
def writeValue (v : Value) (layout : Layout) : Outcome :=
  match encodeBytes { mode := layout.mode, width := layout.width } v with
  | .ok bytes => { out := Outcome.line bytes }
  | .error reason => .failure [] reason.message

/-- The opcodes of an input, one to a line. -/
def listOpcodes (source : Source) : Outcome :=
  let (ops, fault) := Scan.opcodes (Scanner.ofSource source .ascii).requestsToEnd
  let lines := ops.flatMap fun op => Outcome.line (Utf8.encode op.mnemonic.toList)
  match fault with
  | none => { out := lines }
  | some reason => .failure lines reason.message

/-- Decodes an input and goes on with the value. -/
def withDecoded (capacity : Int) (source : Source) (next : Value → Outcome) : Outcome :=
  match decode { capacity } source with
  | .ok v => next v
  | .error e => .failure [] e.message

/-- Carries out a command on its input. -/
def Command.perform (capacity : Int) (source : Source) : Command → Outcome
  | .decode _ => withDecoded capacity source fun v =>
      { out := Outcome.line (Utf8.encode v.text) }
  | .ops _ => listOpcodes source
  | .pretty _ layout => withDecoded capacity source fun v => writeValue v layout
  | .encode v layout => writeValue v layout

/-- Carries out a request, given the input of a command that reads one. -/
def Request.perform (input : Option String → Except OpenError Source) : Request → Outcome
  | .version => { out := Outcome.line (Utf8.encode versionText.toList) }
  | .run capacity command =>
      match command.input? with
      | none => command.perform capacity []
      | some file =>
          match input file with
          | .ok source => command.perform capacity source
          | .error e => .failure [] e.message

/-- The outcome of a whole command line. -/
def outcome (args : List String) (input : Option String → Except OpenError Source) : Outcome :=
  match Request.ofArguments args with
  | .ok request => request.perform input
  | .error e => { code := 2, err := "error: " ++ e.message ++ "\n" }

/-- The outcome in a folder, with the given standard input. -/
def outcomeIn (folder : Folder) (stdin : Source) (args : List String) : Outcome :=
  outcome args fun
    | some path => folder.openFile path
    | none => .ok stdin

end StackText.CommandLine
