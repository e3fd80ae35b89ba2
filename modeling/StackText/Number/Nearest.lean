import StackText.Number.Binary64

/-!
# Rounding to the nearest binary number

`BinaryFormat.nearest` gives the bits of the number of a binary format that is
closest to a fraction of naturals, a tie going to the even neighbour and a
fraction beyond the largest number to infinity. Reading a decimal and narrowing
a double to a single are both this one function.
-/
namespace StackText

/-- A binary interchange format, without its sign bit. -/
structure BinaryFormat where
  /-- Bits of a normal significand, the leading one included. -/
  precision : Nat
  /-- The exponent of the last place of the smallest numbers. -/
  minExponent : Int
  /-- The bits of infinity, which are above those of every finite number. -/
  infinityBits : Nat

namespace BinaryFormat

def double : BinaryFormat := ⟨53, -1074, 0x7ff0000000000000⟩

def single : BinaryFormat := ⟨24, -149, 0x7f800000⟩

/-- The fraction `num / den` in units of `2 ^ e`, again as a fraction. -/
def inUnits (num den : Nat) (e : Int) : Nat × Nat :=
  (num * Nat.pow 2 (-e).toNat, den * Nat.pow 2 e.toNat)

/-- A quotient rounded to the nearest integer, a half going to the even one. -/
def roundHalfEven (num den : Nat) : Nat :=
  let q := num / den
  let twice := 2 * (num % den)
  if twice < den then q
  else if den < twice then q + 1
  else q + q % 2

/-- The exponent of the last place in which `num / den` is held: the one that
leaves `precision` bits before the point, but never below the format's own. -/
def lastPlace (f : BinaryFormat) (num den : Nat) : Int :=
  let e : Int := (num.log2 : Int) - den.log2 - f.precision
  let units := inUnits num den e
  max f.minExponent (if units.1 / units.2 < Nat.pow 2 f.precision then e else e + 1)

/-- The bits of the number closest to `num / den`. The bits of consecutive
numbers are consecutive, so a significand that rounds up to the next power of two
carries into the exponent by itself. -/
def nearest (f : BinaryFormat) (num den : Nat) : Nat :=
  if num = 0 then 0
  else
    let e := f.lastPlace num den
    let units := inUnits num den e
    let bits :=
      (e - f.minExponent).toNat * Nat.pow 2 (f.precision - 1) + roundHalfEven units.1 units.2
    min bits f.infinityBits

end BinaryFormat

/-- A significand as a fraction of naturals. -/
def Significand.toFraction (s : Significand) : Nat × Nat :=
  (s.coefficient * Nat.pow 2 s.exponent.toNat, Nat.pow 2 (-s.exponent).toNat)

end StackText
