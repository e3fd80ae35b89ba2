import StackText.Number.Nearest
import StackText.Number.Decimal

/-!
# Reading a floating-point number

`Binary64.ofDecimal?` reads decimal notation: an optional sign, digits with at
most one point among or around them, and an optional power of ten; or one of the
words `inf`, `infinity` and `nan` in any mixture of cases. The number is the
double closest to the decimal, and infinity where the decimal is too large.
-/
namespace StackText.Binary64

/-- The double closest to `coefficient * 10 ^ exponent`, without its sign. Decimals
so large or so small that every double is on one side are settled by their number
of digits alone. -/
def bitsOfDecimal (coefficient : Nat) (exponent : Int) : Nat :=
  let places : Int := (Decimal.digits coefficient).length + exponent
  if coefficient = 0 ∨ places < -400 then 0
  else if 400 < places then infinity.bits.toNat
  else BinaryFormat.double.nearest
    (coefficient * Nat.pow 10 exponent.toNat) (Nat.pow 10 (-exponent).toNat)

/-- The number after an exponent mark: digits with an optional sign. -/
def exponent? : List Char → Option Int
  | [] => some 0
  | mark :: rest => if mark.toLower = 'e' then Decimal.int? rest else none

/-- A decimal without sign, as its bits: whole digits, then perhaps a point and
more digits, then perhaps a power of ten. At least one digit is needed. -/
def unsignedDecimal? (cs : List Char) : Option Nat := do
  let whole := cs.takeWhile Char.isDigit
  let afterWhole := cs.dropWhile Char.isDigit
  let (tenths, afterTenths) := match afterWhole with
    | '.' :: more => (more.takeWhile Char.isDigit, more.dropWhile Char.isDigit)
    | more => ([], more)
  let coefficient ← Decimal.ofDigits? (whole ++ tenths)
  let exponent ← exponent? afterTenths
  return bitsOfDecimal coefficient (exponent - tenths.length)

/-- A number without its sign, as its bits. -/
def unsigned? (cs : List Char) : Option Nat :=
  let word := String.ofList (cs.map Char.toLower)
  if word = "inf" ∨ word = "infinity" then some infinity.bits.toNat
  else if word = "nan" then some nan.bits.toNat
  else unsignedDecimal? cs

/-- Reads a number; a minus sign sets the sign bit of whatever follows. -/
def ofDecimal? : List Char → Option Binary64
  | '-' :: rest => (unsigned? rest).map fun bits => neg ⟨bits.toUInt64⟩
  | '+' :: rest => (unsigned? rest).map fun bits => ⟨bits.toUInt64⟩
  | cs => (unsigned? cs).map fun bits => ⟨bits.toUInt64⟩

end StackText.Binary64
