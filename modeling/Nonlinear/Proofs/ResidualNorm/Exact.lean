import Mathlib
import Nonlinear.Proofs.Scalar.Real
import Nonlinear.ResidualNorm

/-! # Norms of residuals in exact arithmetic

Without rounding neither a sum nor a maximum depends on the order of its terms.  Every norm of a
vanishing residual is zero, and in one dimension every norm is the magnitude.
-/

namespace Nonlinear.ResidualNorm

open Scalar

/-- A fold over copies of an element that leaves its start as it is. -/
theorem foldl_replicate_of_fixed {α β : Type} {f : β → α → β} {b : β} {x : α} (fixed : f b x = b)
    (k : Nat) : (List.replicate k x).foldl f b = b := by
  induction k with
  | zero => rfl
  | succ k ih => rw [List.replicate_succ, List.foldl_cons, fixed, ih]

variable {K : Type} [Field K] [LinearOrder K] [ExactConstants K]

theorem maxAbsFrom_exact (largest : K) (xs : List K) :
    maxAbsFrom largest xs = xs.foldl (fun m x => max m |x|) largest := by
  induction xs generalizing largest with
  | nil => rfl
  | cons x xs ih =>
      rw [maxAbsFrom, ih, List.foldl_cons, ← larger_exact]
      rfl

theorem maxAbsFrom_perm {xs ys : List K} (same : xs.Perm ys) (largest : K) :
    maxAbsFrom largest xs = maxAbsFrom largest ys := by
  have commutes : RightCommutative fun m x : K => max m |x| := ⟨fun m x y => max_right_comm m _ _⟩
  rw [maxAbsFrom_exact, maxAbsFrom_exact, same.foldl_eq]

theorem sumOfSquares_perm {xs ys : List K} (same : xs.Perm ys) :
    sumOfSquares xs = sumOfSquares ys := by
  have commutes : RightCommutative fun sum x : K => sum + x * x :=
    ⟨fun sum x y => add_right_comm sum _ _⟩
  exact same.foldl_eq _

variable [IsStrictOrderedRing K] {n : Nat}

/-- Every norm of a vanishing residual is zero. -/
theorem norm_zeros [ExactRoots K] (kind : ResidualNorm) :
    kind.norm (Vector.replicate n (0 : K)) = 0 := by
  have largest : maxAbsFrom (0.0 : K) (List.replicate n 0) = 0 := by
    rw [maxAbsFrom_exact, literal_zero]
    exact foldl_replicate_of_fixed (by rw [abs_zero, max_self]) n
  have sum : sumOfSquares (List.replicate n (0 : K)) = 0 := by
    rw [sumOfSquares, literal_zero]
    exact foldl_replicate_of_fixed (by rw [mul_zero, add_zero]) n
  unfold norm
  split
  · exact literal_zero
  · rw [Vector.toList_replicate]
    cases kind with
    | maxAbs => exact largest
    | euclidean =>
        show ExactConstants.sqrt (sumOfSquares _) = 0
        rw [sum, ExactRoots.sqrt_zero]
    | rms =>
        show ExactConstants.sqrt (sumOfSquares _ / _) = 0
        rw [sum, zero_div, ExactRoots.sqrt_zero]

/-- In one dimension every norm is the magnitude. -/
theorem norm_single [PerfectRoots K] (kind : ResidualNorm) (y : K) :
    kind.norm #v[y] = |y| := by
  have root : ExactConstants.sqrt (y * y) = |y| := by
    rw [← abs_mul_abs_self]
    exact PerfectRoots.sqrt_mul_self (abs_nonneg y)
  have sum : sumOfSquares [y] = y * y := by
    show (0.0 : K) + y * y = y * y
    norm_num
  unfold norm
  rw [if_neg one_ne_zero]
  cases kind with
  | maxAbs =>
      show larger (0.0 : K) |y| = |y|
      rw [larger_exact]
      norm_num
  | euclidean =>
      show ExactConstants.sqrt (sumOfSquares [y]) = |y|
      rw [sum, root]
  | rms =>
      show ExactConstants.sqrt (sumOfSquares [y] / Scalar.ofNat 1) = |y|
      rw [sum, ofNat_exact, Nat.cast_one, div_one, root]

end Nonlinear.ResidualNorm
