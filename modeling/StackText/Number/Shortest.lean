import StackText.Number.Binary64
import StackText.Number.Decimal

/-!
# The shortest decimal that reads back

A finite nonzero double is the only double in an interval around its value: the
numbers that round to it. `Decimal.shortest` finds the decimal with the fewest
digits in that interval and, among those with equally many, the one closest to
the value. All arithmetic is exact and on natural numbers.
-/
namespace StackText

/-- The number `coefficient * 10 ^ exponent`. -/
structure Decimal where
  coefficient : Nat
  exponent : Int
  deriving DecidableEq, Repr

/-- A positive value with the interval of the numbers that round to it, all three
as multiples of one positive unit `2 ^ exponent`. -/
structure RoundingInterval where
  lower : Nat
  value : Nat
  upper : Nat
  exponent : Int
  /-- Whether the ends themselves round to the value. -/
  closed : Bool

/-- The interval of a finite nonzero double. Its ends lie half-way to the two
neighbours. The lower neighbour of a power of two is half as far away as the
upper one, except where the exponent cannot be lowered; and the ends belong to
the number whose significand is even. -/
def Binary64.roundingInterval (x : Binary64) : RoundingInterval :=
  let s := x.significand
  let gap := if x.fraction = 0 ∧ 1 < x.exponentField then 1 else 2
  ⟨4 * s.coefficient - gap, 4 * s.coefficient, 4 * s.coefficient + 2, s.exponent - 2,
    s.coefficient % 2 == 0⟩

namespace Decimal

/-- The powers `10 ^ place` and `2 ^ exponent` as two naturals in the same
proportion. -/
def scales (place exponent : Int) : Nat × Nat :=
  (Nat.pow 10 place.toNat * Nat.pow 2 (-exponent).toNat,
    Nat.pow 2 exponent.toNat * Nat.pow 10 (-place).toNat)

/-- The multiple of `10 ^ place` in the interval that is closest to the value, if
there is one. It is one of the value's two neighbours on that grid. Of two equally
close ones it is the upper. -/
def onGrid? (i : RoundingInterval) (place : Int) : Option Nat :=
  let (grid, unit) := scales place i.exponent
  let value := i.value * unit
  let below := value / grid
  let within (a b : Nat) : Bool := if i.closed then a ≤ b else a < b
  let low := within (i.lower * unit) (below * grid)
  let high := within ((below + 1) * grid) (i.upper * unit)
  let upperCloser := (below + 1) * grid - value ≤ value - below * grid
  if high ∧ (¬ low ∨ upperCloser) then some (below + 1)
  else if low then some below
  else none

/-- Whether `value * 2 ^ exponent` is below `10 ^ place`. -/
def isBelow (i : RoundingInterval) (place : Int) : Bool :=
  let (grid, unit) := scales place i.exponent
  i.value * unit < grid

/-- The number of digits before the point: the least `p` with the value below
`10 ^ p`. The binary logarithm times 0.30103 is right up to one. -/
def leadingPlace (i : RoundingInterval) : Int :=
  let guess := Int.fdiv (((i.value.log2 : Int) + i.exponent) * 30103) 100000
  if isBelow i guess then guess
  else if isBelow i (guess + 1) then guess + 1
  else guess + 2

/-- Tries one digit, two digits, and so on. -/
def firstOnGrid (i : RoundingInterval) (top : Int) : List Nat → Decimal
  | [] => ⟨0, 0⟩
  | digits :: more =>
      let place := top - digits
      match onGrid? i place with
      | some coefficient => ⟨coefficient, place⟩
      | none => firstOnGrid i top more

/-- The shortest decimal for a finite nonzero double. Seventeen digits are always
enough. -/
def shortest (x : Binary64) : Decimal :=
  let i := x.roundingInterval
  firstOnGrid i (leadingPlace i) ((List.range 17).map (· + 1))

/-- The digits of a decimal without trailing zeros. -/
def significantDigits (d : Decimal) : List Char :=
  let all := digits d.coefficient
  (all.reverse.dropWhile (· == '0')).reverse

/-- The place of the leading digit: 0 for the units, -1 for the tenths. -/
def leadingExponent (d : Decimal) : Int :=
  d.exponent + (digits d.coefficient).length - 1

end Decimal
end StackText
