import StackText.CommandLine.Arguments
import StackText.Machine.Basic
import StackText.Number.Reading
import StackText.Prettify.Basic
import StackText.Text.Utf8

/-!
# Requests

What the command line asks for: the version, or one of four commands. Decoding
shows a value, listing shows the opcodes of a text, prettifying writes a text anew,
and encoding writes one scalar given on the command line. The stack capacity can be
given before the command and after it; the later place wins.
-/
namespace StackText.CommandLine

/-- How text is laid out. -/
structure Layout where
  mode : Mode := .default
  width : Nat := 0
  deriving DecidableEq, Repr

/-- A command. Its input is a file, or the standard input where none is named. -/
inductive Command where
  | decode (file : Option String)
  | ops (file : Option String)
  | pretty (file : Option String) (layout : Layout)
  | encode (value : Value) (layout : Layout)

inductive Request where
  | version
  | run (capacity : Int) (command : Command)

namespace Request

/-- Reads an integer of 64 bits. -/
def int64? (text : String) : Option Int := do
  let n ← Decimal.int? text.toList
  if -Int.pow 2 63 ≤ n ∧ n < Int.pow 2 63 then some n else none

/-- Reads a natural number of 64 bits. -/
def uint64? (text : String) : Option Nat := do
  let n ← Decimal.nat? text.toList
  if n < Nat.pow 2 64 then some n else none

def bool? : String → Option Bool
  | "true" => some true
  | "false" => some false
  | _ => none

def capacity? (a : Arguments) : Except UsageError (Option Int) :=
  a.parsed? .stackCapacity int64?

def layout (a : Arguments) : Except UsageError Layout := do
  let mode ← a.parsed? .mode Mode.ofName?
  let width ← a.parsed? .width uint64?
  return ⟨mode.getD .default, width.getD 0⟩

/-- The file named by the operands, of which there may be one. -/
def file? : List String → Except UsageError (Option String)
  | [] => .ok none
  | [name] => if name = "" then .error .emptyFileName else .ok (some name)
  | _ :: extra :: _ => .error (.unknownArgument extra)

/-- No operands are allowed. -/
def noOperands : List String → Except UsageError Unit
  | [] => .ok ()
  | extra :: _ => .error (.unknownArgument extra)

/-- The scalar to encode, which must be given in exactly one way. -/
def scalar (a : Arguments) : Except UsageError Value := do
  let int ← a.parsed? .int fun s => (int64? s).map fun n => Value.int (Int64.ofInt n)
  let uint ← a.parsed? .uint fun s => (uint64? s).map fun n => Value.uint n.toUInt64
  let float ← a.parsed? .float fun s => (Binary64.ofDecimal? s.toList).map Value.float
  let str ← a.parsed? .str fun s => some (Value.str (Utf8.encode s.toList))
  let bool ← a.parsed? .bool fun s => (bool? s).map Value.bool
  let nil ← a.parsed? .nil fun _ => some Value.nil
  match [int, uint, float, str, bool, nil].filterMap id with
  | [v] => return v
  | _ => throw .oneValueNeeded

/-- Reads a command from its name and its arguments, with the capacity given there. -/
def command (name : String) (args : List String) :
    Except UsageError (Command × Option Int) :=
  match name with
  | "decode" => do
      let a ← Arguments.read [.stackCapacity] false args
      return (.decode (← file? a.operands), ← capacity? a)
  | "ops" => do
      let a ← Arguments.read [.stackCapacity] false args
      return (.ops (← file? a.operands), ← capacity? a)
  | "pretty" => do
      let a ← Arguments.read [.stackCapacity, .mode, .width] false args
      return (.pretty (← file? a.operands) (← layout a), ← capacity? a)
  | "encode" => do
      let a ← Arguments.read
        [.stackCapacity, .mode, .width, .int, .uint, .float, .str, .bool, .nil] false args
      noOperands a.operands
      return (.encode (← scalar a) (← layout a), ← capacity? a)
  | _ => .error (.unknownCommand name)

/-- Reads a whole command line. -/
def ofArguments (args : List String) : Except UsageError Request := do
  let a ← Arguments.read [.version, .stackCapacity] true args
  let outer ← capacity? a
  if a.options.any fun o => o.1 == .version then return .version
  match a.rest with
  | [] => throw .missingCommand
  | name :: rest =>
      let (command, inner) ← command name rest
      return .run ((inner <|> outer).getD Machine.defaultCapacity) command

end Request
end StackText.CommandLine
