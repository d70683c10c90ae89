import Mathlib
import Nonlinear.Proofs.FloatingPoint.Arithmetic

/-! # Square roots

A square root is hardly ever rational, but it is rounded like a rational with the same integer part
and the same first bits after it.  So a rounded root is not below any number of the format whose
square is not above the radicand.
-/

namespace Nonlinear.FloatingPoint

open Float.Model (Format UnpackedFloat totalExponent)
open Float.Model.UnpackedFloat

variable {spec : Format} {u : UnpackedFloat} {v : ℚ} {e t : ℤ} {m n : ℕ}

/-- How the square root of a natural number is related to its integer part. -/
def rootAccuracy (n : ℕ) : Accuracy :=
  let rest := n - n.sqrt * n.sqrt
  if rest = 0 then .exact else .inexact (if rest ≤ n.sqrt then .lt else .gt)

/-- A quarter stands for what is below a half, and three quarters for what is above. -/
theorem represents_root (n : ℕ) :
    ∃ q : ℚ, (n.sqrt : ℚ) ≤ q ∧ Represents (.ofMantissaAndAccuracy n.sqrt (rootAccuracy n)) q := by
  unfold rootAccuracy
  dsimp only
  by_cases zero : n - n.sqrt * n.sqrt = 0
  · rw [if_pos zero]
    exact ⟨n.sqrt, le_refl _, represents_exact n.sqrt⟩
  · rw [if_neg zero]
    by_cases low : n - n.sqrt * n.sqrt ≤ n.sqrt
    · rw [if_pos low]
      refine ⟨n.sqrt + 1 / 4, by norm_num, ?_⟩
      constructor <;> simp [ExtendedMantissa.ofMantissaAndAccuracy]
      norm_num
    · rw [if_neg low]
      refine ⟨n.sqrt + 3 / 4, by norm_num, ?_⟩
      constructor <;> simp [ExtendedMantissa.ofMantissaAndAccuracy] <;> norm_num [add_assoc]

/-- A root has digits enough to be cut off. -/
theorem sqrtCore_enough (spec : Format) (e : ℤ) (pos : 0 < m) :
    let t := min (e / 2) (spec.targetExponent ((totalExponent m e + 1) / 2))
    t ≤ spec.minExponent ∨ 2 ^ (spec.mantissaBits - 1) ≤ (m * 2 ^ (e - 2 * t).toNat).sqrt := by
  intro t
  rcases le_or_gt t spec.minExponent with low | high
  · exact .inl low
  · right
    have lead := Nat.log2_self_le pos.ne'
    have target : t ≤ (m.log2 + 1 + e + 1) / 2 - spec.mantissaBits := by
      simp only [t, Format.targetExponent, totalExponent] at high ⊢
      omega
    rw [Nat.le_sqrt, ← Nat.pow_add]
    calc 2 ^ (spec.mantissaBits - 1 + (spec.mantissaBits - 1))
        ≤ 2 ^ (m.log2 + (e - 2 * t).toNat) := by
          refine Nat.pow_le_pow_right two_pos ?_
          omega
      _ = 2 ^ m.log2 * 2 ^ (e - 2 * t).toNat := Nat.pow_add _ _ _
      _ ≤ m * 2 ^ (e - 2 * t).toNat := Nat.mul_le_mul_right _ lead

/-- A point of the grid whose square is not above the radicand has the place value of the root, or
it is smaller than any root with this place value. -/
theorem Grid.le_root (grid : Grid spec v) (nonneg : 0 ≤ v)
    (enough : t ≤ spec.minExponent ∨ 2 ^ (spec.mantissaBits - 1) ≤ n.sqrt)
    (square : v * v ≤ n * (2 ^ t * 2 ^ t)) : v ≤ n.sqrt * 2 ^ t := by
  obtain ⟨m, k, bound, least, rfl⟩ := grid
  have place := two_zpow_pos t
  rcases le_or_gt t k with fine | coarse
  · obtain ⟨d, rfl⟩ := Int.le.dest fine
    have shift : (m : ℚ) * 2 ^ (t + d) = (m * 2 ^ d : ℤ) * 2 ^ t := by
      rw [zpow_add₀ two_ne_zero, zpow_natCast]
      push_cast
      ring
    rw [shift] at nonneg square ⊢
    generalize m * 2 ^ d = l at nonneg square ⊢
    have nonneg' : 0 ≤ l := by
      have := nonneg_of_mul_nonneg_left nonneg place
      exact_mod_cast this
    obtain ⟨l, rfl⟩ := Int.eq_ofNat_of_zero_le nonneg'
    have root : l ≤ n.sqrt := by
      rw [Nat.le_sqrt]
      have : (l * l : ℚ) ≤ n := by
        refine le_of_mul_le_mul_right ?_ (mul_pos place place)
        calc (l * l : ℚ) * (2 ^ t * 2 ^ t) = ((l : ℤ) : ℚ) * 2 ^ t * (((l : ℤ) : ℚ) * 2 ^ t) := by
              push_cast
              ring
          _ ≤ n * (2 ^ t * 2 ^ t) := square
      exact_mod_cast this
    refine mul_le_mul_of_nonneg_right ?_ place.le
    exact_mod_cast root
  · have many : 2 ^ (spec.mantissaBits - 1) ≤ n.sqrt := enough.resolve_left (by omega)
    have small : (m : ℚ) ≤ 2 ^ spec.mantissaBits := by
      exact_mod_cast (le_abs_self m).trans bound.le
    have bits : spec.mantissaBits = spec.mantissaBits - 1 + 1 := by
      simp only [Format.mantissaBits]
      omega
    calc (m : ℚ) * 2 ^ k ≤ 2 ^ spec.mantissaBits * 2 ^ k :=
          mul_le_mul_of_nonneg_right small (two_zpow_pos k).le
      _ ≤ 2 ^ spec.mantissaBits * 2 ^ (t - 1) :=
          mul_le_mul_of_nonneg_left (zpow_le_zpow_right₀ one_le_two (by omega)) (by positivity)
      _ = 2 ^ (spec.mantissaBits - 1) * 2 ^ t := by
          rw [bits, pow_succ, zpow_sub_one₀ two_ne_zero, Nat.add_sub_cancel]
          ring
      _ ≤ n.sqrt * 2 ^ t := mul_le_mul_of_nonneg_right (by exact_mod_cast many) place.le

/-- A rounded root is the rounding of something that no point of the grid below the root exceeds. -/
theorem sqrt_spec (finite : u.isFinite = true) (nonneg : 0 ≤ toRat u) :
    ∃ q, RoundsTo spec (UnpackedFloat.sqrt spec u) q ∧
      ∀ v, Grid spec v → 0 ≤ v → v * v ≤ toRat u → v ≤ q := by
  cases u with
  | notANumber | infinity => cases finite
  | zero s =>
      refine ⟨0, roundsTo_zero s, fun v _ _ square => ?_⟩
      exact (mul_self_eq_zero.mp (le_antisymm square (mul_self_nonneg v))).le
  | finite s m e pos =>
      have some : (0 : ℚ) < m * 2 ^ e := by positivity
      cases s with
      | negative => exact absurd (neg_neg_of_pos some) (not_lt_of_ge nonneg)
      | positive =>
          have enough := sqrtCore_enough spec e pos
          set t := min (e / 2) (spec.targetExponent ((totalExponent m e + 1) / 2))
          obtain ⟨q, le, represents⟩ := represents_root (m * 2 ^ (e - 2 * t).toNat)
          refine ⟨q * 2 ^ t, ?_, fun v grid nonneg square => ?_⟩
          · have eq : UnpackedFloat.sqrt spec (.finite .positive m e pos) =
                roundWithAccuracy spec .positive (m * 2 ^ (e - 2 * t).toNat).sqrt t
                  (rootAccuracy (m * 2 ^ (e - 2 * t).toNat)) := by
              simp only [UnpackedFloat.sqrt, sqrtCore, Nat.shiftLeft_eq]
              rfl
            rw [eq]
            exact roundWithAccuracy_spec .positive represents enough
          · have radicand :
                ((m * 2 ^ (e - 2 * t).toNat : ℕ) : ℚ) * (2 ^ t * 2 ^ t) = m * 2 ^ e := by
              have low : t ≤ e / 2 := min_le_left _ _
              push_cast
              rw [mul_assoc, ← zpow_natCast, ← zpow_add₀ two_ne_zero, ← zpow_add₀ two_ne_zero]
              congr 2
              omega
            have root := grid.le_root nonneg enough (square.trans_eq radicand.symm)
            exact root.trans (mul_le_mul_of_nonneg_right le (two_zpow_pos t).le)

end Nonlinear.FloatingPoint

namespace Nonlinear.BinaryScalar

open FloatingPoint

variable {α : Type} [Scalar α] [BinaryScalar α] {x : α} {v : ℚ}

/-- A number whose square is not above the radicand is not above the root. -/
theorem le_sqrt (finite : Scalar.isFinite x = true) (nonneg : 0 ≤ real x)
    (grid : Grid (format α) v) (nonneg' : 0 ≤ v) (high : v ≤ limit (format α))
    (square : v * v ≤ real x) : v ≤ real (Scalar.sqrt x) := by
  rw [real_of_finite finite] at nonneg square
  obtain ⟨q, rounds, above⟩ := sqrt_spec ((isFinite_value x).trans finite) nonneg
  have rounded : Rounded (Scalar.sqrt x) q := rounded_of_bits rounds (bits_sqrt x)
  exact (grid_le_clip grid high (above v grid nonneg' square)).trans_eq rounded.real.symm

end Nonlinear.BinaryScalar
