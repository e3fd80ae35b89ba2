import StackText.Value.Basic
import StackText.Number.FloatLayout
import StackText.Text.Utf8
import StackText.Text.Quoted

/-!
# Values as text for people

Unsigned numbers end in `u` and floating-point numbers always show a point or a
power of ten, so the three kinds of numbers look different. Strings and keys are
quoted. Objects stand in braces and arrays in brackets, in their own order.
-/
namespace StackText.Value

/-- Positional from 0.0001 up to below 10 ^ 16, whole numbers with one zero after
the point, and a plain `e` before the power of ten elsewhere. -/
def floatLayout : FloatLayout where
  positionalFrom := -4
  positionalUpTo := 16
  wholeSuffix := ".0"
  exponentMark := 'e'
  infinityText := "inf"
  nanText := "NaN"

/-- A byte string in quotes; bytes that are no valid text show as the replacement
character. -/
def quotedBytes (bytes : Bytes) : List Char := Text.quoted (Utf8.decodeLossy bytes)

/-- Texts with a comma and a space between them. -/
def commaSeparated (texts : List (List Char)) : List Char := [',', ' '].intercalate texts

mutual

def text : Value → List Char
  | .int n => Decimal.ofInt n.toInt
  | .uint n => Decimal.digits n.toNat ++ ['u']
  | .float x => floatLayout.text x
  | .str bytes => quotedBytes bytes
  | .bool true => "true".toList
  | .bool false => "false".toList
  | .nil => "nil".toList
  | .object entries => '\x7b' :: (commaSeparated (entryTexts entries) ++ ['\x7d'])
  | .array items => '[' :: (commaSeparated (itemTexts items) ++ [']'])
  termination_by structural v => v

/-- The text of each entry: the key, a colon and the value. -/
def entryTexts : List (Bytes × Value) → List (List Char)
  | [] => []
  | (key, v) :: rest => (quotedBytes key ++ ':' :: ' ' :: text v) :: entryTexts rest
  termination_by structural entries => entries

def itemTexts : List Value → List (List Char)
  | [] => []
  | v :: rest => text v :: itemTexts rest
  termination_by structural items => items

end

def display (v : Value) : String := String.ofList v.text

end StackText.Value
