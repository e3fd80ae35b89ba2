/-!
# Floating-point numbers as bit patterns

A `Binary64` is a double-precision number, held as its 64 bits: one sign bit,
eleven bits of exponent and 52 bits of fraction. Two numbers are the same exactly
when their bits are, so a NaN equals itself and the two zeros differ. A
`Binary32` is the single-precision counterpart. `Significand` is the exact value
of a finite magnitude, as an integer times a power of two.
-/
namespace StackText

structure Binary64 where
  bits : UInt64
  deriving DecidableEq, Repr, Inhabited

structure Binary32 where
  bits : UInt32
  deriving DecidableEq, Repr, Inhabited

/-- The number `coefficient * 2 ^ exponent`. -/
structure Significand where
  coefficient : Nat
  exponent : Int
  deriving DecidableEq, Repr

namespace Binary64

/-- Positive infinity: the exponent is all ones and the fraction is zero. -/
def infinity : Binary64 := ⟨0x7ff0000000000000⟩

/-- The canonical NaN: positive, quiet, and without a payload. -/
def nan : Binary64 := ⟨0x7ff8000000000000⟩

/-- Negation flips the sign bit, also of a NaN. -/
def neg (x : Binary64) : Binary64 := ⟨x.bits ^^^ 0x8000000000000000⟩

def isNegative (x : Binary64) : Bool := 0x8000000000000000 ≤ x.bits

/-- The bits without the sign. -/
def magnitude (x : Binary64) : UInt64 := x.bits &&& 0x7fffffffffffffff

def isInfinite (x : Binary64) : Bool := x.magnitude == infinity.bits

def isNaN (x : Binary64) : Bool := infinity.bits < x.magnitude

/-- The stored exponent, before the bias is taken off. -/
def exponentField (x : Binary64) : Nat := x.magnitude.toNat / Nat.pow 2 52

def fraction (x : Binary64) : Nat := x.magnitude.toNat % Nat.pow 2 52

/-- The absolute value of a finite number. Numbers with the lowest stored
exponent lack the leading one and share the scale of the next exponent. -/
def significand (x : Binary64) : Significand :=
  if x.exponentField = 0 then ⟨x.fraction, -1074⟩
  else ⟨Nat.pow 2 52 + x.fraction, x.exponentField - 1075⟩

@[simp] theorem neg_neg (x : Binary64) : x.neg.neg = x := by
  cases x
  rw [neg, neg, UInt64.xor_assoc]
  simp

end Binary64

namespace Binary32

def isNegative (x : Binary32) : Bool := 0x80000000 ≤ x.bits

/-- The bits without the sign. -/
def magnitude (x : Binary32) : UInt32 := x.bits &&& 0x7fffffff

def exponentField (x : Binary32) : Nat := x.magnitude.toNat / Nat.pow 2 23

def fraction (x : Binary32) : Nat := x.magnitude.toNat % Nat.pow 2 23

def significand (x : Binary32) : Significand :=
  if x.exponentField = 0 then ⟨x.fraction, -149⟩
  else ⟨Nat.pow 2 23 + x.fraction, x.exponentField - 150⟩

end Binary32
end StackText
