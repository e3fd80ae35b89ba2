import Mathlib.Algebra.Order.Field.Power
import Mathlib.Data.Int.Log
import Mathlib.Data.Rat.Floor
import Mathlib.Tactic.FieldSimp
import Mathlib.Tactic.Positivity
import Mathlib.Tactic.Ring
import StackText.Number.Nearest

/-!
# A number of the format is the nearest one to itself

The numbers of a binary format are significands in a normal form, and their bits are the
significands packed together. The exponent of the last place is found from the leading
bits of a fraction alone (`lastPlace_eq`), so a fraction that has a normal form is rounded
in its own last place, where nothing is lost.
-/
namespace StackText

theorem two_zpow_eq (e : ℤ) : (2 : ℚ) ^ e = 2 ^ e.toNat / 2 ^ (-e).toNat := by
  obtain ⟨n, rfl | rfl⟩ := e.eq_nat_or_neg
  · simp
  · simp

namespace Significand

/-- The number that a significand stands for. -/
def value (s : Significand) : ℚ := s.coefficient * 2 ^ s.exponent

theorem toFraction_den_pos (s : Significand) : 0 < s.toFraction.2 :=
  Nat.two_pow_pos _

theorem div_toFraction (s : Significand) : (s.toFraction.1 : ℚ) / s.toFraction.2 = s.value := by
  simp only [toFraction, value, Nat.pow_eq, two_zpow_eq s.exponent]
  push_cast
  ring

theorem value_eq_zero_iff {s : Significand} : s.value = 0 ↔ s.coefficient = 0 := by
  rw [value, mul_eq_zero_iff_right (zpow_ne_zero _ two_ne_zero), Nat.cast_eq_zero]

/-- How many bits a coefficient has can be read off the number. -/
theorem value_lt_two_zpow_iff {s : Significand} {n : ℕ} :
    s.value < 2 ^ (s.exponent + n) ↔ s.coefficient < 2 ^ n := by
  have scale : (0 : ℚ) < 2 ^ s.exponent := by positivity
  rw [value, zpow_add₀ two_ne_zero, mul_comm, mul_lt_mul_iff_right₀ scale, zpow_natCast]
  norm_cast

theorem two_zpow_le_value_iff {s : Significand} {n : ℕ} :
    2 ^ (s.exponent + n) ≤ s.value ↔ 2 ^ n ≤ s.coefficient := by
  rw [← not_lt, value_lt_two_zpow_iff, not_lt]

end Significand

namespace BinaryFormat

section
variable {num den : ℕ}

theorem inUnits_den_pos (num : ℕ) (den_pos : 0 < den) (e : ℤ) : 0 < (inUnits num den e).2 :=
  Nat.mul_pos den_pos (Nat.two_pow_pos _)

theorem div_inUnits (num den : ℕ) (e : ℤ) :
    ((inUnits num den e).1 : ℚ) / (inUnits num den e).2 = num / den / 2 ^ e := by
  simp only [inUnits, Nat.pow_eq, two_zpow_eq e]
  push_cast
  field_simp

theorem inUnits_quotient_lt_iff (num : ℕ) (den_pos : 0 < den) (e : ℤ) (bound : ℕ) :
    (inUnits num den e).1 / (inUnits num den e).2 < bound ↔ (num / den : ℚ) < bound * 2 ^ e := by
  have units_pos := inUnits_den_pos num den_pos e
  rw [Nat.div_lt_iff_lt_mul units_pos, ← div_lt_iff₀ (by positivity), ← div_inUnits,
    div_lt_iff₀ (by exact_mod_cast units_pos)]
  norm_cast

theorem roundHalfEven_mul (n : ℕ) (den_pos : 0 < den) : roundHalfEven (n * den) den = n := by
  simp [roundHalfEven, Nat.mul_div_cancel n den_pos, den_pos]

/-- The binary logarithm of a quotient, up to one. -/
theorem log_div_bounds (num_pos : 0 < num) (den_pos : 0 < den) :
    (num.log2 : ℤ) - den.log2 - 1 ≤ Int.log 2 (num / den : ℚ) ∧
      Int.log 2 (num / den : ℚ) ≤ num.log2 - den.log2 := by
  have positive : (0 : ℚ) < num / den := by positivity
  have num_low : (2 : ℚ) ^ num.log2 ≤ num := by exact_mod_cast Nat.log2_self_le num_pos.ne'
  have num_high : (num : ℚ) < 2 ^ (num.log2 + 1) := by exact_mod_cast Nat.lt_log2_self
  have den_low : (2 : ℚ) ^ den.log2 ≤ den := by exact_mod_cast Nat.log2_self_le den_pos.ne'
  have den_high : (den : ℚ) < 2 ^ (den.log2 + 1) := by exact_mod_cast Nat.lt_log2_self
  constructor
  · rw [← Int.zpow_le_iff_le_log one_lt_two positive]
    calc (2 : ℚ) ^ ((num.log2 : ℤ) - den.log2 - 1)
        = 2 ^ num.log2 / 2 ^ (den.log2 + 1) := by
          rw [← zpow_natCast, ← zpow_natCast, ← zpow_sub₀ two_ne_zero]
          push_cast
          ring_nf
      _ ≤ num / den := by gcongr
  · rw [← Int.lt_add_one_iff, ← Int.lt_zpow_iff_log_lt one_lt_two positive]
    calc (num : ℚ) / den < 2 ^ (num.log2 + 1) / 2 ^ den.log2 := by gcongr
      _ = (2 : ℕ) ^ ((num.log2 : ℤ) - den.log2 + 1) := by
          rw [← zpow_natCast, ← zpow_natCast, ← zpow_sub₀ two_ne_zero]
          push_cast
          ring_nf

/-- The exponent that leaves the precision before the point. -/
theorem lastPlace_eq (f : BinaryFormat) (num_pos : 0 < num) (den_pos : 0 < den) :
    f.lastPlace num den = max f.minExponent (Int.log 2 (num / den : ℚ) + 1 - f.precision) := by
  have positive : (0 : ℚ) < num / den := by positivity
  obtain ⟨low, high⟩ := log_div_bounds num_pos den_pos
  have fits : (inUnits num den ((num.log2 : ℤ) - den.log2 - f.precision)).1 /
      (inUnits num den ((num.log2 : ℤ) - den.log2 - f.precision)).2 < Nat.pow 2 f.precision ↔
        Int.log 2 (num / den : ℚ) < num.log2 - den.log2 := by
    rw [inUnits_quotient_lt_iff num den_pos, ← Int.lt_zpow_iff_log_lt one_lt_two positive]
    have scale : ((Nat.pow 2 f.precision : ℕ) : ℚ) * 2 ^ ((num.log2 : ℤ) - den.log2 - f.precision) =
        (2 : ℕ) ^ ((num.log2 : ℤ) - den.log2) := by
      rw [Nat.pow_eq, Nat.cast_pow, Nat.cast_ofNat, ← zpow_natCast, ← zpow_add₀ two_ne_zero]
      ring_nf
    rw [scale]
  simp only [lastPlace, fits]
  split <;> congr 1 <;> omega

end

/-- A significand in normal form: short enough, and in the lowest place of the format
unless it has a leading one. -/
structure Holds (f : BinaryFormat) (s : Significand) : Prop where
  short : s.coefficient < 2 ^ f.precision
  minExponent_le : f.minExponent ≤ s.exponent
  leading : s.exponent = f.minExponent ∨ 2 ^ (f.precision - 1) ≤ s.coefficient

/-- The bits of a significand in normal form. Its leading one counts as a step of the
exponent. -/
def pack (f : BinaryFormat) (s : Significand) : ℕ :=
  (s.exponent - f.minExponent).toNat * 2 ^ (f.precision - 1) + s.coefficient

/-- The significand with the given bits. -/
def unpack (f : BinaryFormat) (bits : ℕ) : Significand :=
  if bits / 2 ^ (f.precision - 1) = 0 then ⟨bits % 2 ^ (f.precision - 1), f.minExponent⟩
  else
    ⟨2 ^ (f.precision - 1) + bits % 2 ^ (f.precision - 1),
      (bits / 2 ^ (f.precision - 1) : ℕ) - 1 + f.minExponent⟩

section
variable {f : BinaryFormat} {s : Significand} {num den : ℕ}

/-- A significand in normal form stands in its own last place. -/
theorem Holds.lastPlace_eq (h : f.Holds s) (num_pos : 0 < num) (den_pos : 0 < den)
    (same : (num / den : ℚ) = s.value) : f.lastPlace num den = s.exponent := by
  have positive : (0 : ℚ) < num / den := by positivity
  have high : Int.log 2 (num / den : ℚ) < s.exponent + f.precision := by
    rw [← Int.lt_zpow_iff_log_lt one_lt_two positive, same]
    exact Significand.value_lt_two_zpow_iff.2 h.short
  rw [BinaryFormat.lastPlace_eq f num_pos den_pos]
  rcases h.leading with lowest | normal
  · omega
  · have low : s.exponent + (f.precision - 1 : ℕ) ≤ Int.log 2 (num / den : ℚ) := by
      rw [← Int.zpow_le_iff_le_log one_lt_two positive, same]
      exact Significand.two_zpow_le_value_iff.2 normal
    have above := h.minExponent_le
    omega

/-- A number of the format is rounded to itself. -/
theorem Holds.nearest_eq (h : f.Holds s) (den_pos : 0 < den)
    (same : (num / den : ℚ) = s.value) :
    f.nearest num den = min (f.pack s) f.infinityBits := by
  rw [nearest]
  split
  · rename_i zero
    have empty : s.coefficient = 0 := by
      rw [← Significand.value_eq_zero_iff, ← same, zero, Nat.cast_zero, zero_div]
    have lowest : s.exponent = f.minExponent := by
      refine h.leading.resolve_right fun normal => ?_
      rw [empty] at normal
      exact (Nat.two_pow_pos _).not_ge normal
    rw [pack, empty, lowest]
    simp
  · rename_i nonzero
    -- In units of its own last place the number is whole, so there is nothing to round.
    have place := h.lastPlace_eq (Nat.pos_of_ne_zero nonzero) den_pos same
    have units_pos := inUnits_den_pos num den_pos s.exponent
    have whole : (inUnits num den s.exponent).1 =
        s.coefficient * (inUnits num den s.exponent).2 := by
      have quotient := div_inUnits num den s.exponent
      rw [same, Significand.value, mul_div_cancel_right₀ _ (zpow_ne_zero _ two_ne_zero),
        div_eq_iff (by exact_mod_cast units_pos.ne')] at quotient
      exact_mod_cast quotient
    simp only [place, whole, roundHalfEven_mul _ units_pos, Nat.pow_eq, pack]

theorem holds_unpack (f : BinaryFormat) (precision_pos : 0 < f.precision) (bits : ℕ) :
    f.Holds (f.unpack bits) := by
  have fraction : bits % 2 ^ (f.precision - 1) < 2 ^ (f.precision - 1) :=
    Nat.mod_lt _ (Nat.two_pow_pos _)
  have double := Nat.two_pow_pred_add_two_pow_pred precision_pos
  rw [unpack]
  split
  · constructor
    · show bits % _ < _
      omega
    · exact le_refl _
    · exact .inl rfl
  · rename_i normal
    obtain ⟨exponent, eq⟩ := Nat.exists_eq_succ_of_ne_zero normal
    constructor
    · show _ + bits % _ < _
      omega
    · show f.minExponent ≤ (_ / _ : ℕ) - 1 + f.minExponent
      rw [eq]
      omega
    · exact .inr (Nat.le_add_right _ _)

theorem pack_unpack (f : BinaryFormat) (bits : ℕ) : f.pack (f.unpack bits) = bits := by
  have parts := Nat.div_add_mod' bits (2 ^ (f.precision - 1))
  rw [unpack]
  split
  · rename_i short
    rw [short, Nat.zero_mul] at parts
    simpa [pack] using parts
  · rename_i long
    obtain ⟨exponent, eq⟩ := Nat.exists_eq_succ_of_ne_zero long
    rw [eq] at parts ⊢
    rw [Nat.succ_mul] at parts
    simp [pack]
    omega

theorem Holds.unpack_pack (h : f.Holds s) (precision_pos : 0 < f.precision) :
    f.unpack (f.pack s) = s := by
  have double := Nat.two_pow_pred_add_two_pow_pred precision_pos
  have unit_pos := Nat.two_pow_pos (f.precision - 1)
  have above := h.minExponent_le
  have short := h.short
  by_cases normal : 2 ^ (f.precision - 1) ≤ s.coefficient
  · obtain ⟨fraction, eq⟩ := Nat.exists_eq_add_of_le normal
    have bits : f.pack s =
        fraction + ((s.exponent - f.minExponent).toNat + 1) * 2 ^ (f.precision - 1) := by
      rw [pack, eq, Nat.succ_mul]
      omega
    have quotient : f.pack s / 2 ^ (f.precision - 1) = (s.exponent - f.minExponent).toNat + 1 := by
      rw [bits, Nat.add_mul_div_right _ _ unit_pos, Nat.div_eq_of_lt (by omega), Nat.zero_add]
    have remainder : f.pack s % 2 ^ (f.precision - 1) = fraction := by
      rw [bits, Nat.add_mul_mod_self_right, Nat.mod_eq_of_lt (by omega)]
    have exponent : (((s.exponent - f.minExponent).toNat + 1 : ℕ) : ℤ) - 1 + f.minExponent =
        s.exponent := by omega
    rw [unpack, quotient, remainder, if_neg (Nat.succ_ne_zero _), exponent, ← eq]
  · have lowest := h.leading.resolve_right normal
    have bits : f.pack s = s.coefficient := by simp [pack, lowest]
    have less := Nat.lt_of_not_le normal
    rw [unpack, bits, Nat.div_eq_of_lt less, Nat.mod_eq_of_lt less, if_pos rfl, ← lowest]

/-- A short significand far above the lowest place of a format has a normal form in it. -/
theorem exists_holds_value_eq (short : s.coefficient < 2 ^ f.precision)
    (room : f.minExponent + f.precision ≤ s.exponent) :
    ∃ t, f.Holds t ∧ t.value = s.value ∧ t.exponent ≤ s.exponent := by
  by_cases zero : s.coefficient = 0
  · have lower : f.minExponent ≤ s.exponent := by omega
    refine ⟨⟨0, f.minExponent⟩, ⟨Nat.two_pow_pos _, le_refl _, .inl rfl⟩, ?_, lower⟩
    rw [Significand.value_eq_zero_iff.2 rfl, Significand.value_eq_zero_iff.2 zero]
  · have bits : s.coefficient.log2 < f.precision := (Nat.log2_lt zero).2 short
    obtain ⟨k, eq⟩ := Nat.exists_eq_add_of_lt bits
    refine ⟨⟨s.coefficient * 2 ^ k, s.exponent - k⟩, ⟨?_, ?_, .inr ?_⟩, ?_, ?_⟩
    · calc s.coefficient * 2 ^ k < 2 ^ (s.coefficient.log2 + 1) * 2 ^ k :=
            Nat.mul_lt_mul_of_pos_right Nat.lt_log2_self (Nat.two_pow_pos k)
        _ = 2 ^ f.precision := by rw [← pow_add, eq, Nat.add_right_comm]
    · show f.minExponent ≤ s.exponent - k
      omega
    · calc 2 ^ (f.precision - 1) = 2 ^ s.coefficient.log2 * 2 ^ k := by
            rw [← pow_add, eq, Nat.add_sub_cancel]
        _ ≤ s.coefficient * 2 ^ k := Nat.mul_le_mul_right _ (Nat.log2_self_le zero)
    · simp only [Significand.value]
      rw [zpow_sub₀ two_ne_zero, zpow_natCast]
      push_cast
      field_simp
    · show s.exponent - k ≤ s.exponent
      omega

end

end BinaryFormat
end StackText
