import Mathlib
import Nonlinear.Proofs.Scalar.Order

/-! # Exact arithmetic

An ordered field is an arithmetic in which nothing rounds and every number is finite.  What a
solver takes for its rounding constants is left open: `ExactConstants` only bounds them.
-/

namespace Nonlinear

/-- The constants of an exact arithmetic, and some square root for the norms. -/
class ExactConstants (K : Type) [Field K] [LinearOrder K] where
  epsilon : K
  sqrtEpsilon : K
  golden : K
  sqrt : K → K
  epsilon_nonneg : 0 ≤ epsilon
  sqrtEpsilon_nonneg : 0 ≤ sqrtEpsilon
  golden_pos : 0 < golden
  golden_lt_half : golden < 1 / 2
  sqrt_nonneg (x : K) : 0 ≤ sqrt x

/-- The square root vanishes at zero only, and some rounding error is allowed for. -/
class ExactRoots (K : Type) [Field K] [LinearOrder K] [ExactConstants K] : Prop where
  epsilon_pos : 0 < (ExactConstants.epsilon : K)
  sqrt_zero : ExactConstants.sqrt (0 : K) = 0
  sqrt_pos {x : K} : 0 < x → 0 < ExactConstants.sqrt x

section Field

variable {K : Type} [Field K] [LinearOrder K] [ExactConstants K]

instance exactScalar : Scalar K where
  magnitude := abs
  sqrt := ExactConstants.sqrt
  isFinite _ := true
  isNaN _ := false
  isNegative x := decide (x < 0)
  epsilon := ExactConstants.epsilon
  sqrtEpsilon := ExactConstants.sqrtEpsilon
  golden := ExactConstants.golden

theorem beq_exact_iff {x y : K} : @BEq.beq K beqOfScalar x y = true ↔ x = y :=
  decide_eq_true_iff

theorem beq_exact_false {x y : K} (distinct : x ≠ y) : @BEq.beq K beqOfScalar x y = false :=
  Bool.eq_false_iff.mpr (mt beq_exact_iff.mp distinct)

theorem all_isFinite_exact {n : Nat} (v : Vector K n) : v.all Scalar.isFinite = true :=
  Vector.all_eq_true.mpr fun _ _ => rfl

theorem ofNat_exact (n : Nat) : (Scalar.ofNat n : K) = n := by
  show (OfScientific.ofScientific n false 0 : K) = n
  simp [NNRatCast.ofScientific_eq_ite]

theorem larger_exact (x y : K) : Scalar.larger x y = max x y := by
  have unfolded : Scalar.larger x y = if x < y then y else x := rfl
  rw [unfolded]
  split
  next below => exact (max_eq_right below.le).symm
  next above => exact (max_eq_left (not_lt.mp above)).symm

variable [IsStrictOrderedRing K]

theorem literal_zero : (@OfScientific.ofScientific K ofScientificOfScalar 0 true 1) = 0 := by
  show (0.0 : K) = 0
  norm_num

theorem literal_one : (@OfScientific.ofScientific K ofScientificOfScalar 10 true 1) = 1 := by
  show (1.0 : K) = 1
  norm_num

instance : LawfulScalar K where
  le_refl _ := le_refl _
  le_trans h k := le_trans h k
  le_total _ _ := le_total _ _
  lt_iff := lt_iff_le_not_ge
  beq_iff := beq_exact_iff.trans le_antisymm_iff
  isNaN_of_le _ := ⟨rfl, rfl⟩
  isNaN_of_isFinite _ := rfl
  isFinite_zero := rfl
  lt_of_infinite _ h := by cases h
  isNaN_magnitude _ := rfl
  isFinite_magnitude _ := rfl
  magnitude_nonneg {x} _ := by
    rw [literal_zero]
    exact abs_nonneg x
  magnitude_beq {x} h := by
    rw [literal_zero] at h
    exact decide_eq_true (abs_of_nonneg h)
  isNegative_of_neg h := by
    rw [literal_zero] at h
    exact decide_eq_true h
  isNegative_of_pos h := by
    rw [literal_zero] at h
    exact decide_eq_false (not_lt_of_gt h)
  sqrt_nonneg {x} _ := by
    rw [literal_zero]
    exact ExactConstants.sqrt_nonneg x

end Field

/-- Rational arithmetic with the constants of doubles, rounded. -/
instance : ExactConstants ℚ where
  epsilon := 1 / 4503599627370496
  sqrtEpsilon := 1 / 67108864
  golden := 381966 / 1000000
  sqrt := Rat.sqrt
  epsilon_nonneg := by norm_num
  sqrtEpsilon_nonneg := by norm_num
  golden_pos := by norm_num
  golden_lt_half := by norm_num
  sqrt_nonneg := Rat.sqrt_nonneg

instance : ExactRoots ℚ where
  epsilon_pos := by
    show (0 : ℚ) < 1 / 4503599627370496
    norm_num
  sqrt_zero := by decide +kernel
  sqrt_pos {x} pos := by
    show 0 < mkRat (Int.sqrt x.num) (Nat.sqrt x.den)
    have numerator : 0 < Int.sqrt x.num := by
      have pos_num : 0 < x.num.toNat := Int.lt_toNat.mpr (Rat.num_pos.mpr pos)
      exact Int.natCast_pos.mpr (Nat.sqrt_pos.mpr pos_num)
    have denominator : 0 < Nat.sqrt x.den := Nat.sqrt_pos.mpr x.den_pos
    rw [Rat.mkRat_eq_div]
    positivity

end Nonlinear
