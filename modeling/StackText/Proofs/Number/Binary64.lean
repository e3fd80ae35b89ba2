import StackText.Number.Binary64

/-!
# Sign and magnitude

The magnitude of a double is its bits modulo the sign bit.
-/
namespace StackText
namespace Binary64

theorem toNat_magnitude (x : Binary64) : x.magnitude.toNat = x.bits.toNat % 0x8000000000000000 := by
  rw [magnitude, UInt64.toNat_and]
  exact Nat.and_two_pow_sub_one_eq_mod x.bits.toNat 63

/-- The sign tells the two infinities apart. -/
theorem eq_of_isInfinite {x : Binary64} (h : x.isInfinite) :
    x = if x.isNegative then infinity.neg else infinity := by
  have magnitude : x.bits.toNat % 0x8000000000000000 = 0x7ff0000000000000 := by
    rw [← toNat_magnitude, beq_iff_eq.1 h]
    rfl
  have bound : x.bits.toNat < 2 ^ 64 := x.bits.toNat_lt
  obtain ⟨bits⟩ := x
  simp only at magnitude bound
  by_cases negative : 0x8000000000000000 ≤ bits
  · have large : 0x8000000000000000 ≤ bits.toNat := UInt64.le_iff_toNat_le.1 negative
    rw [isNegative, if_pos (decide_eq_true negative)]
    exact congrArg mk (UInt64.toNat.inj (show bits.toNat = 0xfff0000000000000 by omega))
  · have small : bits.toNat < 0x8000000000000000 :=
      Nat.lt_of_not_le fun h => negative (UInt64.le_iff_toNat_le.2 h)
    rw [isNegative, if_neg (by simpa using negative)]
    exact congrArg mk (UInt64.toNat.inj (show bits.toNat = 0x7ff0000000000000 by omega))

end Binary64
end StackText
