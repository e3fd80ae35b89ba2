import StackText.Native.Map
import StackText.Value.Basic

/-!
# Native types

The types of data that values can be made from and turned back into. A `NativeType`
is a description of such a type, and `NativeType.Carrier` the type it describes:
whole numbers of a given range, floating-point numbers, truth values, text, values
themselves, and optional data, lists and maps of any described type.
-/
namespace StackText

inductive IntWidth where
  | w8 | w16 | w32 | w64 | w128
  deriving DecidableEq, Repr

def IntWidth.bits : IntWidth → Nat
  | .w8 => 8
  | .w16 => 16
  | .w32 => 32
  | .w64 => 64
  | .w128 => 128

inductive IntType where
  | signed (width : IntWidth)
  | unsigned (width : IntWidth)
  deriving DecidableEq, Repr

namespace IntType

def name : IntType → String
  | .signed w => "i" ++ toString w.bits
  | .unsigned w => "u" ++ toString w.bits

/-- The kind of value that holds such numbers. -/
def kind : IntType → Kind
  | .signed _ => .int
  | .unsigned _ => .uint

def low : IntType → Int
  | .signed w => -Int.pow 2 (w.bits - 1)
  | .unsigned _ => 0

def high : IntType → Int
  | .signed w => Int.pow 2 (w.bits - 1) - 1
  | .unsigned w => Int.pow 2 w.bits - 1

def Holds (t : IntType) (n : Int) : Prop := t.low ≤ n ∧ n ≤ t.high

instance (t : IntType) (n : Int) : Decidable (t.Holds n) :=
  inferInstanceAs (Decidable (_ ∧ _))

abbrev Number (t : IntType) := { n : Int // t.Holds n }

end IntType

inductive NativeType where
  | int (type : IntType)
  | single
  | double
  | bool
  | text
  | value
  | option (item : NativeType)
  | list (item : NativeType)
  | sortedMap (item : NativeType)
  | unorderedMap (item : NativeType)
  deriving DecidableEq, Repr

def NativeType.Carrier : NativeType → Type
  | .int type => type.Number
  | .single => Binary32
  | .double => Binary64
  | .bool => Bool
  | .text => String
  | .value => Value
  | .option item => Option item.Carrier
  | .list item => List item.Carrier
  | .sortedMap item => SortedMap item.Carrier
  | .unorderedMap item => UnorderedMap item.Carrier

end StackText
