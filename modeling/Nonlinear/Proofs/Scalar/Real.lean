import Mathlib
import Nonlinear.Proofs.Scalar.Exact

/-! # Real arithmetic

The real numbers have the golden section itself, and roots that undo squares.
-/

namespace Nonlinear

/-- The root of a square is the number that was squared. -/
class PerfectRoots (K : Type) [Field K] [LinearOrder K] [ExactConstants K] : Prop where
  sqrt_mul_self {x : K} : 0 ≤ x → ExactConstants.sqrt (x * x) = x

theorem one_add_goldenConj_lt : 1 + Real.goldenConj < 1 / 2 := by
  have : 2 < √5 := (Real.lt_sqrt (by norm_num)).mpr (by norm_num)
  show 1 + (1 - √5) / 2 < 1 / 2
  linarith

/-- Real arithmetic with the other constants those of doubles. -/
noncomputable instance : ExactConstants ℝ where
  epsilon := 1 / 4503599627370496
  sqrtEpsilon := 1 / 67108864
  golden := 1 + Real.goldenConj
  sqrt := Real.sqrt
  epsilon_nonneg := by norm_num
  sqrtEpsilon_nonneg := by norm_num
  golden_pos := by linarith [Real.neg_one_lt_goldenConj]
  golden_lt_half := one_add_goldenConj_lt
  sqrt_nonneg := Real.sqrt_nonneg

theorem golden_eq : (ExactConstants.golden : ℝ) = (3 - √5) / 2 := by
  show 1 + (1 - √5) / 2 = (3 - √5) / 2
  ring

theorem golden_sq : (ExactConstants.golden : ℝ) ^ 2 = 3 * ExactConstants.golden - 1 := by
  show (1 + Real.goldenConj) ^ 2 = 3 * (1 + Real.goldenConj) - 1
  linear_combination Real.goldenConj_sq

theorem golden_bounds :
    19 / 50 < (ExactConstants.golden : ℝ) ∧ (ExactConstants.golden : ℝ) < 383 / 1000 := by
  have above : 2234 / 1000 < √5 := (Real.lt_sqrt (by norm_num)).mpr (by norm_num)
  have below : √5 < 224 / 100 := (Real.sqrt_lt' (by norm_num)).mpr (by norm_num)
  rw [golden_eq]
  constructor <;> linarith

instance : PerfectRoots ℝ where
  sqrt_mul_self := Real.sqrt_mul_self

instance : PerfectRoots ℚ where
  sqrt_mul_self {x} nonneg := (Rat.sqrt_eq x).trans (abs_of_nonneg nonneg)

end Nonlinear
