import StackText.CommandLine.Request
import StackText.Proofs.CommandLine.Arguments

/-!
# Command lines that ask for what they give

A command line gives options to a command: behind its name, in any order and spelling, or,
for the stack capacity alone, in front of it (`Gives`). What it asks for depends on the
options as a collection only, and numbers, words and text are read as they are written.
-/
namespace StackText.CommandLine

/-- The options that ask for a layout. -/
def Layout.options (l : Layout) : List (OptionName × String) :=
  [(.mode, l.mode.name), (.width, String.ofList (Decimal.digits l.width))]

/-- A scalar that is given without rounding. -/
inductive Scalar where
  | int (n : Int64)
  | uint (n : UInt64)
  | str (s : String)
  | bool (b : Bool)
  | nil
  deriving DecidableEq, Repr

namespace Scalar

/-- The option that gives the scalar. -/
def option : Scalar → OptionName × String
  | .int n => (.int, String.ofList (Decimal.ofInt n.toInt))
  | .uint n => (.uint, String.ofList (Decimal.digits n.toNat))
  | .str s => (.str, s)
  | .bool b => (.bool, if b then "true" else "false")
  | .nil => (.nil, "")

def value : Scalar → Value
  | .int n => .int n
  | .uint n => .uint n
  | .str s => .str (Utf8.encode s.toList)
  | .bool b => .bool b
  | .nil => .nil

end Scalar

namespace Arguments
variable {a : Arguments} {options : List (OptionName × String)}

end Arguments

namespace Request

section
variable {args : List String} {given options : List (OptionName × String)}

end

end Request
end StackText.CommandLine
