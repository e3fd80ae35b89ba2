import StackText.Number.Precision
import StackText.Proofs.Number.Binary64
import StackText.Proofs.Number.Nearest

/-!
# Widening loses nothing

A single is the single closest to itself, also after it has been held as a double. So
narrowing undoes widening, for the zeros, the infinities and the NaNs as well. The one
exception is a signalling NaN, which comes back quiet.
-/
namespace StackText

theorem or_two_pow {i m : ℕ} (h : m < 2 ^ i) : m ||| 2 ^ i = 2 ^ i + m := by
  have bits := Nat.two_pow_add_eq_or_of_lt h 1
  rw [Nat.mul_one] at bits
  rw [Nat.or_comm, bits]

/-- Setting bits above the lowest ones. -/
theorem two_pow_mul_or_add {i r : ℕ} (h : r < 2 ^ i) (a b : ℕ) :
    2 ^ i * a ||| (2 ^ i * b + r) = 2 ^ i * (a ||| b) + r := by
  rw [Nat.two_pow_add_eq_or_of_lt h, Nat.two_pow_add_eq_or_of_lt h, ← Nat.or_assoc]
  simp only [Nat.mul_comm (2 ^ i), ← Nat.shiftLeft_eq, Nat.shiftLeft_or_distrib]

namespace Binary32

/-- A NaN with the leading bit of its fraction clear. -/
def isSignalling (x : Binary32) : Bool :=
  x.exponentField = 255 ∧ 0 < x.fraction ∧ x.fraction < 2 ^ 22

theorem toNat_magnitude (x : Binary32) : x.magnitude.toNat = x.bits.toNat % 2 ^ 31 := by
  rw [magnitude, UInt32.toNat_and]
  exact Nat.and_two_pow_sub_one_eq_mod x.bits.toNat 31

theorem toNat_magnitude_lt (x : Binary32) : x.magnitude.toNat < 2 ^ 31 := by
  rw [toNat_magnitude]
  exact Nat.mod_lt _ (Nat.two_pow_pos 31)

theorem toNat_bits_ofMagnitude (negative : Bool) {m : UInt32} (h : m.toNat < 2 ^ 31) :
    (ofMagnitude negative m).bits.toNat = (if negative then 2 ^ 31 else 0) + m.toNat := by
  cases negative with
  | false => exact (Nat.zero_add _).symm
  | true => exact (UInt32.toNat_or _ _).trans (or_two_pow h)

theorem ofMagnitude_magnitude (x : Binary32) : ofMagnitude x.isNegative x.magnitude = x := by
  have bits := toNat_bits_ofMagnitude x.isNegative x.toNat_magnitude_lt
  have sign : x.isNegative = decide (2 ^ 31 ≤ x.bits.toNat) := rfl
  have limit := x.bits.toNat_lt
  have same : (ofMagnitude x.isNegative x.magnitude).bits.toNat = x.bits.toNat := by
    rw [bits, sign, toNat_magnitude]
    split
    · simp_all
      omega
    · simp_all
  exact congrArg Binary32.mk (UInt32.toNat_inj.1 same)

theorem significand_eq (x : Binary32) :
    x.significand = BinaryFormat.single.unpack x.magnitude.toNat := by
  have exponent : (x.exponentField : ℤ) - 150 = x.exponentField - 1 + -149 := by omega
  rw [significand, exponent]
  rfl

theorem pack_significand (x : Binary32) :
    BinaryFormat.single.pack x.significand = x.magnitude.toNat := by
  rw [significand_eq, BinaryFormat.pack_unpack]

theorem holds_significand (x : Binary32) : BinaryFormat.single.Holds x.significand := by
  rw [significand_eq]
  exact BinaryFormat.holds_unpack _ (by decide) _

end Binary32

namespace Binary64

theorem toNat_bits_ofMagnitude (negative : Bool) {m : UInt64} (h : m.toNat < 2 ^ 63) :
    (ofMagnitude negative m).bits.toNat = (if negative then 2 ^ 63 else 0) + m.toNat := by
  cases negative with
  | false => exact (Nat.zero_add _).symm
  | true => exact (UInt64.toNat_or _ _).trans (or_two_pow h)

theorem magnitude_ofMagnitude (negative : Bool) {m : UInt64} (h : m.toNat < 2 ^ 63) :
    (ofMagnitude negative m).magnitude = m := by
  rw [← UInt64.toNat_inj, toNat_magnitude, toNat_bits_ofMagnitude negative h]
  split <;> omega

theorem isNegative_ofMagnitude (negative : Bool) {m : UInt64} (h : m.toNat < 2 ^ 63) :
    (ofMagnitude negative m).isNegative = negative := by
  have sign : (ofMagnitude negative m).isNegative =
      decide (2 ^ 63 ≤ (ofMagnitude negative m).bits.toNat) := rfl
  rw [sign, toNat_bits_ofMagnitude negative h]
  cases negative with
  | false => exact decide_eq_false (by simpa using h)
  | true => exact decide_eq_true (Nat.le_add_right _ _)

theorem significand_eq (x : Binary64) :
    x.significand = BinaryFormat.double.unpack x.magnitude.toNat := by
  have exponent : (x.exponentField : ℤ) - 1075 = x.exponentField - 1 + -1074 := by omega
  rw [significand, exponent]
  rfl

theorem isNaN_eq (x : Binary64) : x.isNaN = decide (2047 * 2 ^ 52 < x.magnitude.toNat) := rfl

theorem isInfinite_eq (x : Binary64) :
    x.isInfinite = decide (x.magnitude.toNat = 2047 * 2 ^ 52) := by
  rw [isInfinite, Bool.beq_eq_decide_eq]
  exact decide_eq_decide.2 UInt64.toNat_inj.symm

/-- The magnitude of the single closest to a double of the given magnitude. -/
def narrowed (m : ℕ) : UInt32 :=
  if 2047 * 2 ^ 52 < m then 0x7fc00000 ||| (m % 2 ^ 52 / 2 ^ 29).toUInt32
  else if m = 2047 * 2 ^ 52 then 0x7f800000
  else
    (BinaryFormat.single.nearest (BinaryFormat.double.unpack m).toFraction.1
      (BinaryFormat.double.unpack m).toFraction.2).toUInt32

theorem narrow_eq (x : Binary64) :
    x.narrow = Binary32.ofMagnitude x.isNegative (narrowed x.magnitude.toNat) := by
  simp only [narrow, narrowed, isNaN_eq, isInfinite_eq, decide_eq_true_eq, significand_eq]
  rfl

theorem narrow_ofMagnitude (negative : Bool) {m : UInt64} (h : m.toNat < 2 ^ 63) :
    (ofMagnitude negative m).narrow = Binary32.ofMagnitude negative (narrowed m.toNat) := by
  rw [narrow_eq, isNegative_ofMagnitude negative h, magnitude_ofMagnitude negative h]

end Binary64

namespace Binary32
variable {x : Binary32}

theorem magnitude_eq_fields (x : Binary32) :
    x.magnitude.toNat = x.exponentField * 2 ^ 23 + x.fraction :=
  (Nat.div_add_mod' x.magnitude.toNat (2 ^ 23)).symm

/-- A finite single is a finite double, held as the same number. -/
theorem exists_holds_significand (finite : x.exponentField < 255) :
    ∃ t, BinaryFormat.double.Holds t ∧ t.value = x.significand.value ∧
      BinaryFormat.double.pack t < 2047 * 2 ^ 52 := by
  have held := x.holds_significand
  have low : -149 ≤ x.significand.exponent := held.minExponent_le
  have high : x.significand.exponent ≤ 104 := by
    rw [significand]
    split
    · show (-149 : ℤ) ≤ 104
      decide
    · show (x.exponentField : ℤ) - 150 ≤ 104
      omega
  have room : BinaryFormat.double.minExponent + BinaryFormat.double.precision ≤
      x.significand.exponent := le_trans (by decide) low
  obtain ⟨t, holds, same, lower⟩ :=
    BinaryFormat.exists_holds_value_eq (held.short.trans (by decide)) room
  refine ⟨t, holds, same, ?_⟩
  have short : t.coefficient < 2 ^ 53 := holds.short
  have above : -1074 ≤ t.exponent := holds.minExponent_le
  show (t.exponent - -1074).toNat * 2 ^ 52 + t.coefficient < 2047 * 2 ^ 52
  omega

theorem narrow_widen_of_magnitude {m : UInt64}
    (widened : x.widen = Binary64.ofMagnitude x.isNegative m) (bounded : m.toNat < 2 ^ 63)
    (back : Binary64.narrowed m.toNat = x.magnitude) : x.widen.narrow = x := by
  rw [widened, Binary64.narrow_ofMagnitude _ bounded, back, ofMagnitude_magnitude]

theorem narrow_widen_finite (finite : x.exponentField < 255) : x.widen.narrow = x := by
  obtain ⟨t, holds, same, bound⟩ := exists_holds_significand finite
  have widened : BinaryFormat.double.nearest x.significand.toFraction.1
      x.significand.toFraction.2 = BinaryFormat.double.pack t := by
    rw [holds.nearest_eq x.significand.toFraction_den_pos
      (x.significand.div_toFraction.trans same.symm)]
    exact min_eq_left bound.le
  have narrowed : BinaryFormat.single.nearest t.toFraction.1 t.toFraction.2 =
      x.magnitude.toNat := by
    rw [x.holds_significand.nearest_eq t.toFraction_den_pos (t.div_toFraction.trans same),
      pack_significand]
    have fields := x.magnitude_eq_fields
    have fraction : x.fraction < 2 ^ 23 := Nat.mod_lt _ (Nat.two_pow_pos 23)
    exact min_eq_left (show x.magnitude.toNat ≤ 255 * 2 ^ 23 by omega)
  have bits : (BinaryFormat.double.pack t).toUInt64.toNat = BinaryFormat.double.pack t :=
    UInt64.toNat_ofNat_of_lt' (bound.trans (by decide))
  refine narrow_widen_of_magnitude (m := (BinaryFormat.double.pack t).toUInt64) ?_ ?_ ?_
  · simp only [widen, if_neg finite.ne, widened]
  · rw [bits]
    exact bound.trans (by decide)
  · rw [bits, Binary64.narrowed, if_neg bound.not_gt, if_neg bound.ne,
      holds.unpack_pack (by decide), narrowed]
    exact UInt32.ofNat_toNat

theorem narrow_widen_infinite (top : x.exponentField = 255) (infinite : x.fraction = 0) :
    x.widen.narrow = x := by
  have fields := x.magnitude_eq_fields
  rw [top, infinite] at fields
  refine narrow_widen_of_magnitude (m := Binary64.infinity.bits) ?_ (by decide) ?_
  · rw [widen, if_pos top, if_pos infinite]
  · rw [← UInt32.toNat_inj, fields]
    decide

theorem narrow_widen_nan (top : x.exponentField = 255) (quiet : 2 ^ 22 ≤ x.fraction) :
    x.widen.narrow = x := by
  have fields := x.magnitude_eq_fields
  have bound : x.fraction < 2 ^ 23 := Nat.mod_lt _ (Nat.two_pow_pos 23)
  -- The leading bit of the fraction is already set, so only the payload is put in.
  obtain ⟨payload, fraction⟩ := Nat.exists_eq_add_of_le quiet
  have shifted : (x.fraction * 2 ^ 29).toUInt64.toNat = 2 ^ 51 * 1 + payload * 2 ^ 29 := by
    rw [Nat.toUInt64, UInt64.toNat_ofNat']
    omega
  have bits : (Binary64.nan.bits ||| (x.fraction * 2 ^ 29).toUInt64).toNat =
      2047 * 2 ^ 52 + x.fraction * 2 ^ 29 := by
    rw [UInt64.toNat_or, shifted]
    calc 2 ^ 51 * 4095 ||| (2 ^ 51 * 1 + payload * 2 ^ 29)
        = 2 ^ 51 * (4095 ||| 1) + payload * 2 ^ 29 := two_pow_mul_or_add (by omega) 4095 1
      _ = 2 ^ 51 * 4095 + payload * 2 ^ 29 := rfl
      _ = 2047 * 2 ^ 52 + x.fraction * 2 ^ 29 := by omega
  refine narrow_widen_of_magnitude
    (m := Binary64.nan.bits ||| (x.fraction * 2 ^ 29).toUInt64) ?_ ?_ ?_
  · rw [widen, if_pos top, if_neg (by omega), Nat.pow_eq]
  · rw [bits]
    omega
  · have kept : (2047 * 2 ^ 52 + x.fraction * 2 ^ 29) % 2 ^ 52 / 2 ^ 29 = 2 ^ 22 * 1 + payload := by
      omega
    have small : (2 ^ 22 * 1 + payload).toUInt32.toNat = 2 ^ 22 * 1 + payload := by
      rw [Nat.toUInt32, UInt32.toNat_ofNat']
      omega
    rw [bits, Binary64.narrowed, if_pos (by omega), kept, ← UInt32.toNat_inj, fields, top,
      UInt32.toNat_or, small]
    calc 2 ^ 22 * 511 ||| (2 ^ 22 * 1 + payload)
        = 2 ^ 22 * (511 ||| 1) + payload := two_pow_mul_or_add (by omega) 511 1
      _ = 2 ^ 22 * 511 + payload := rfl
      _ = 255 * 2 ^ 23 + x.fraction := by omega

/-- Widening loses nothing but that a NaN is signalling. -/
theorem narrow_widen (quiet : ¬ x.isSignalling) : x.widen.narrow = x := by
  have limit := x.toNat_magnitude_lt
  have fields := x.magnitude_eq_fields
  by_cases finite : x.exponentField < 255
  · exact narrow_widen_finite finite
  have top : x.exponentField = 255 := by omega
  by_cases infinite : x.fraction = 0
  · exact narrow_widen_infinite top infinite
  · refine narrow_widen_nan top (Nat.le_of_not_lt fun signalling => quiet ?_)
    exact decide_eq_true ⟨top, Nat.pos_of_ne_zero infinite, signalling⟩

end Binary32
end StackText
