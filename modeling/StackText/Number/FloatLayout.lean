import StackText.Number.Shortest

/-!
# The text of a floating-point number

A `FloatLayout` fixes how the shortest digits of a double are laid out: which
magnitudes are written positionally and how the special values are spelled. All
others are written with one digit before the point and a power of ten.
-/
namespace StackText

structure FloatLayout where
  /-- The least leading exponent that is written positionally. -/
  positionalFrom : Int
  /-- The least leading exponent above it that is not. -/
  positionalUpTo : Int
  /-- What follows the digits of a whole number in positional notation. -/
  wholeSuffix : String
  exponentMark : Char
  infinityText : String
  nanText : String

namespace FloatLayout

/-- Digits with the point after the digit of the units; zeros fill the gap between
the digits and the point on either side. -/
def positional (layout : FloatLayout) (ds : List Char) (leading : Int) : List Char :=
  if leading < 0 then
    '0' :: '.' :: (List.replicate (-leading - 1).toNat '0' ++ ds)
  else
    let before := leading.toNat + 1
    if ds.length ≤ before then
      ds ++ List.replicate (before - ds.length) '0' ++ layout.wholeSuffix.toList
    else ds.take before ++ '.' :: ds.drop before

/-- One digit, the others after a point, and the power of ten. -/
def scientific (layout : FloatLayout) (ds : List Char) (leading : Int) : List Char :=
  let mantissa := match ds with
    | d :: rest@(_ :: _) => d :: '.' :: rest
    | short => short
  mantissa ++ layout.exponentMark :: Decimal.ofInt leading

/-- The absolute value of a double, which is no NaN. -/
def magnitude (layout : FloatLayout) (x : Binary64) : List Char :=
  if x.isInfinite then layout.infinityText.toList
  else if x.magnitude = 0 then layout.positional ['0'] 0
  else
    let d := Decimal.shortest x
    let ds := d.significantDigits
    let leading := d.leadingExponent
    if layout.positionalFrom ≤ leading ∧ leading < layout.positionalUpTo then
      layout.positional ds leading
    else layout.scientific ds leading

/-- The text of a double. Every number has its sign, a NaN has none. -/
def text (layout : FloatLayout) (x : Binary64) : List Char :=
  if x.isNaN then layout.nanText.toList
  else if x.isNegative then '-' :: layout.magnitude x
  else layout.magnitude x

end FloatLayout
end StackText
