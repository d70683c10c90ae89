import Mathlib
import Nonlinear.Proofs.Scalar.Unit

/-! # Counts as doubles

A small count is converted and a large one is read as a decimal number, and either way the result is
the count, rounded.  So a count that fits a machine word becomes a finite number, and a positive one
if there is anything to count.
-/

namespace Nonlinear.FloatingPoint

open Float.Model (Format UnpackedFloat)
open Float.Model.UnpackedFloat

/-- A decimal number without a fraction or an exponent is read correctly. -/
theorem ofScientific_spec (spec : Format) {n : ℕ} (some : n ≠ 0) :
    RoundsTo spec (UnpackedFloat.ofScientific spec n 0) n := by
  have exponents : (0 : ℤ) < 2 ^ spec.exponentBits := by positivity
  have eq : UnpackedFloat.ofScientific spec n 0 =
      roundWithAccuracy spec .positive (n * 2 ^ spec.mantissaBits) (-spec.mantissaBits)
        .exact := by
    have within : ¬ (0 : ℤ) > 2 ^ spec.exponentBits := not_lt_of_gt exponents
    have within' : ¬ (0 : ℤ) < -(2 ^ spec.exponentBits + n.log2) := by omega
    rw [UnpackedFloat.ofScientific, dif_neg some, if_neg within, if_neg within', if_pos le_rfl]
    show roundWithAccuracy spec .positive (n <<< spec.mantissaBits * 1) (-spec.mantissaBits + 0)
      .exact = _
    rw [mul_one, add_zero, Nat.shiftLeft_eq]
  have enough : -(spec.mantissaBits : ℤ) ≤ spec.minExponent ∨
      2 ^ (spec.mantissaBits - 1) ≤ n * 2 ^ spec.mantissaBits := by
    right
    calc 2 ^ (spec.mantissaBits - 1) ≤ 2 ^ spec.mantissaBits :=
          Nat.pow_le_pow_right two_pos (Nat.sub_le _ _)
      _ ≤ n * 2 ^ spec.mantissaBits := Nat.le_mul_of_pos_left _ (Nat.pos_of_ne_zero some)
  have rounds := roundWithAccuracy_spec .positive (represents_exact _) enough
  have value : ((n * 2 ^ spec.mantissaBits : ℕ) : ℚ) * 2 ^ (-(spec.mantissaBits : ℤ)) = n := by
    push_cast
    rw [zpow_neg, zpow_natCast, mul_assoc, mul_inv_cancel₀ (by positivity), mul_one]
  rw [value] at rounds
  rw [eq]
  exact rounds

end Nonlinear.FloatingPoint

namespace Nonlinear.BinaryScalar

open Float.Model (Format UnpackedFloat)
open FloatingPoint

/-- A result is known by its value. -/
theorem Rounded.congr {α : Type} [Scalar α] [BinaryScalar α] {x y : α} {q : ℚ} (h : Rounded x q)
    (same : value y = value x) : Rounded y q := by
  constructor
  · rw [← isNaN_value, same, isNaN_value]
    exact h.isNaN
  · rw [BinaryScalar.real, same]
    exact h.real

theorem rounded_toFloat (n : UInt64) : Rounded n.toFloat n.toNat := by
  have rounds : RoundsTo .binary64 _ _ := normalize_spec n.toNat 0 .positive
  rw [zpow_zero, mul_one, Int.cast_natCast] at rounds
  exact rounded_of_bits rounds rfl

theorem ofNat_of_lt {n : ℕ} (small : n < 2 ^ 53) :
    (Scalar.ofNat n : Float) = n.toUInt64.toFloat * 1.0 := by
  have one : Float.exactlyRepresentablePowersOfTen[0] = 1.0 := by decide +kernel
  show Float.ofScientific n false 0 = _
  rw [Float.ofScientific, dif_pos ⟨small, Nat.zero_le 22⟩, ← one]
  rfl

/-- A count is rounded like any other result. -/
theorem rounded_ofNat (n : ℕ) : Rounded (Scalar.ofNat n : Float) n := by
  by_cases small : n < 2 ^ 53
  · have exact := rounded_toFloat n.toUInt64
    have word : n.toUInt64.toNat = n := by
      rw [Nat.toUInt64, UInt64.toNat_ofNat']
      omega
    rw [word] at exact
    rw [ofNat_of_lt small]
    exact exact.congr (value_mul_one _)
  · have eq : (Scalar.ofNat n : Float) = Float.ofModel (Float.Model.ofScientific n 0) := by
      show Float.ofScientific n false 0 = _
      rw [Float.ofScientific, dif_neg fun h => small h.1]
      rfl
    rw [eq]
    exact rounded_of_bits (ofScientific_spec .binary64 (by omega)) rfl

theorem count_spec {n : ℕ} (nonempty : n ≠ 0) (word : n < 2 ^ 64) :
    Scalar.isFinite (Scalar.ofNat n : Float) = true ∧ 0 < real (Scalar.ofNat n : Float) := by
  have rounded := rounded_ofNat n
  have one := BinaryConstants.one (α := Float)
  constructor
  · have grid : Grid (format Float) (2 ^ 64) := ⟨1, 64, by decide, by decide, by norm_num⟩
    have exponents : (64 : ℤ) < maxExponent .binary64 + Format.mantissaBits .binary64 := by decide
    have representable : 2 ^ 64 < limit (format Float) := zpow_lt_zpow_right₀ one_lt_two exponents
    refine rounded.isFinite_of_abs grid representable ?_
    rw [Nat.abs_cast]
    exact_mod_cast word.le
  · have least : real (1.0 : Float) ≤ n := by
      rw [one.real]
      exact_mod_cast Nat.one_le_iff_ne_zero.mpr nonempty
    have := rounded.le_real least
    rw [one.real] at this
    exact zero_lt_one.trans_le this

end Nonlinear.BinaryScalar
