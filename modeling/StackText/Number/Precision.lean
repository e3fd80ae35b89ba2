import StackText.Number.Nearest

/-!
# Changing precision

Every single-precision number is a double-precision number, so widening is exact.
Narrowing rounds to the nearest single, a tie to even, and overflows to infinity.
A NaN stays a quiet NaN, keeps its sign, and keeps the leading bits of its payload.
-/
namespace StackText

/-- Puts the sign bit on a magnitude of 64 bits. -/
def Binary64.ofMagnitude (negative : Bool) (magnitude : UInt64) : Binary64 :=
  ⟨if negative then magnitude ||| 0x8000000000000000 else magnitude⟩

/-- Puts the sign bit on a magnitude of 32 bits. -/
def Binary32.ofMagnitude (negative : Bool) (magnitude : UInt32) : Binary32 :=
  ⟨if negative then magnitude ||| 0x80000000 else magnitude⟩

/-- The double with the value of a single. -/
def Binary32.widen (x : Binary32) : Binary64 :=
  Binary64.ofMagnitude x.isNegative <|
    if x.exponentField = 255 then
      if x.fraction = 0 then Binary64.infinity.bits
      else Binary64.nan.bits ||| (x.fraction * Nat.pow 2 29).toUInt64
    else
      let value := x.significand.toFraction
      (BinaryFormat.double.nearest value.1 value.2).toUInt64

/-- The single closest to a double. -/
def Binary64.narrow (x : Binary64) : Binary32 :=
  Binary32.ofMagnitude x.isNegative <|
    if x.isNaN then 0x7fc00000 ||| (x.fraction / Nat.pow 2 29).toUInt32
    else if x.isInfinite then 0x7f800000
    else
      let value := x.significand.toFraction
      (BinaryFormat.single.nearest value.1 value.2).toUInt32

end StackText
