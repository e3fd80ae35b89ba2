import StackText.Machine.Basic
import StackText.Prettify.Basic

/-!
# Settings of the codec

What can be chosen when values are decoded and encoded. None of the choices changes
which value a text stands for, only how much stack there is and how text is laid out.
-/
namespace StackText

structure Settings where
  /-- The stack capacity for decoding; one that is not positive means the default. -/
  capacity : Int := Machine.defaultCapacity
  mode : Mode := .default
  /-- Tokens to a line; zero means a single line. -/
  width : Nat := 0
  deriving DecidableEq, Repr, Inhabited

/-- The machine that decodes under these settings. -/
def Settings.machine (s : Settings) : Machine := .ofRequest s.capacity

end StackText
