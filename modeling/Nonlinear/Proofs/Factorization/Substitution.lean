import Mathlib
import Nonlinear.Proofs.Factorization.Elimination

/-! # Substitution in exact arithmetic

The two substitutions run through the triangles column by column.  If no pivot is zero they always
end, and in the solution; and the pivots multiply to the determinant, up to its sign.
-/

namespace Nonlinear.Factorization

open Scalar Matrix

variable {n : Nat}

theorem get_permute {α : Type} (s : Factorization α n) (b : Vector α n) (r : Fin n) :
    (s.permute b).get r = b.get (rowOrder s.swaps r) := by
  obtain ⟨factors, swaps⟩ := s
  simp only [permute]
  induction swaps generalizing b with
  | nil => rfl
  | cons swap swaps ih =>
      rw [List.foldl_cons, ih, get_swap]
      rfl

section Parts

variable {K : Type} [Field K]

/-- The columns of the upper triangle from `k` on, behind columns of the identity. -/
def upperFrom (a : DenseMatrix K n n) (k : Nat) : Matrix (Fin n) (Fin n) K :=
  .of fun r c => if c.val < k then if r = c then 1 else 0 else if c < r then 0 else a.entry r c

theorem upperFrom_size (a : DenseMatrix K n n) : upperFrom a n = 1 := by
  ext r c
  simp [upperFrom, Matrix.one_apply]

theorem upperFrom_zero (a : DenseMatrix K n n) : upperFrom a 0 = upperPart a n := by
  ext r c
  simp [upperFrom, upperPart]

/-- One step of a substitution from below, with column `i`. -/
theorem upperFrom_mulVec_clear (a : DenseMatrix K n n) {i : Fin n} (pivot : a.entry i i ≠ 0)
    (b : Fin n → K) :
    upperFrom a i *ᵥ (fun r =>
        if r = i then b i / a.entry i i
        else if r < i then b r - a.entry r i * (b i / a.entry i i)
        else b r) =
      upperFrom a (i + 1) *ᵥ b := by
  apply mulVec_of_column
    (w := fun r => if r = i then a.entry i i - 1 else if r < i then a.entry r i else 0) i
  · intro r c
    simp only [upperFrom, of_apply]
    split_ifs <;> grind
  · -- from the diagonal up the column only meets columns of the identity
    apply mulVec_eq_self
    intro j nonzero r
    have above : j ≤ i := by
      by_contra below
      exact nonzero (by grind)
    simp only [upperFrom, of_apply]
    split_ifs <;> grind
  · intro r
    simp only [lt_irrefl, if_true, if_false]
    split_ifs <;> grind

/-- The pivots multiply to the determinant, but for the sign of the exchanges. -/
theorem Factors.det {a : DenseMatrix K n n} {s : Factorization K n} (h : Factors a n s) :
    (Equiv.Perm.sign (rowOrder s.swaps) : K) * a.toMatrix.det = ∏ i, s.factors.entry i i := by
  have lower : (lowerPart s.factors n).IsLowerTriangular := by
    intro r c above
    have above : r < c := above
    simp [lowerPart, above.ne, above.not_gt]
  have upper : (upperPart s.factors n).IsUpperTriangular := by
    intro r c below
    have below : c < r := below
    simp [upperPart, below]
  calc
    _ = (lowerPart s.factors n * upperPart s.factors n).det := by rw [h, det_permute]
    _ = ∏ i, s.factors.entry i i := by
      rw [det_mul, det_of_isLowerTriangular _ lower, det_of_isUpperTriangular upper]
      simp [lowerPart, upperPart]

theorem Factors.det_eq_zero_iff {a : DenseMatrix K n n} {s : Factorization K n}
    (h : Factors a n s) : a.toMatrix.det = 0 ↔ ∃ i, s.factors.entry i i = 0 := by
  have sign : (Equiv.Perm.sign (rowOrder s.swaps) : K) ≠ 0 := by
    rcases Int.units_eq_one_or (Equiv.Perm.sign (rowOrder s.swaps)) with plus | minus
    · simp [plus]
    · simp [minus]
  have product := h.det
  constructor
  · intro singular
    rw [singular, mul_zero] at product
    simpa using Finset.prod_eq_zero_iff.mp product.symm
  · rintro ⟨i, zero⟩
    have none : ∏ j, s.factors.entry j j = 0 := Finset.prod_eq_zero (Finset.mem_univ i) zero
    exact (mul_eq_zero.mp (product.trans none)).resolve_left sign

end Parts

variable {K : Type} [Field K] [LinearOrder K] [ExactConstants K]

theorem get_forwardStep (s : Factorization K n) (b : Vector K n) (i r : Fin n) :
    (s.forwardStep b i).get r =
      if i < r then b.get r - s.factors.entry r i * b.get i else b.get r := by
  simp only [forwardStep, Vector.get_ofFn]
  split
  · calc -b.get i * s.factors.entry r i + b.get r
      _ = b.get r - s.factors.entry r i * b.get i := by ring
  · rfl

theorem forward (s : Factorization K n) (b : Vector K n) :
    lowerPart s.factors n *ᵥ ((List.finRange n).foldl s.forwardStep b).get = b.get := by
  apply foldl_columns (P := fun k (b' : Vector K n) => lowerPart s.factors k *ᵥ b'.get = b.get)
  · rw [lowerPart_zero, one_mulVec]
  · intro i b' solved
    rw [← solved, ← lowerPart_mulVec_clear, funext (get_forwardStep s b' i)]

variable [IsStrictOrderedRing K]

theorem backwardStep_of_pivot (s : Factorization K n) {i : Fin n}
    (pivot : s.factors.entry i i ≠ 0) (b : Vector K n) :
    s.backwardStep b i = some (Vector.ofFn fun r =>
      if r = i then b.get i / s.factors.entry i i
      else if r < i then b.get r - s.factors.entry r i * (b.get i / s.factors.entry i i)
      else b.get r) := by
  have regular : ¬ (s.factors.entry i i == 0.0) = true := by
    rw [beq_exact_iff, literal_zero]
    exact pivot
  simp only [backwardStep, if_neg regular, Option.some.injEq]
  congr
  ext r
  split
  · rfl
  · split
    · calc -(b.get i / s.factors.entry i i) * s.factors.entry r i + b.get r
        _ = b.get r - s.factors.entry r i * (b.get i / s.factors.entry i i) := by ring
    · rfl

theorem backward (s : Factorization K n) (pivots : ∀ i, s.factors.entry i i ≠ 0)
    (b : Vector K n) :
    ∃ x, (List.finRange n).reverse.foldlM s.backwardStep b = some x ∧
      upperPart s.factors n *ᵥ x.get = b.get := by
  rw [← upperFrom_zero]
  apply foldlM_columns_reverse
    (P := fun k (b' : Vector K n) => upperFrom s.factors k *ᵥ b'.get = b.get)
  · rw [upperFrom_size, one_mulVec]
  · intro i b' solved
    refine ⟨_, backwardStep_of_pivot s (pivots i) b', ?_⟩
    rw [← solved, ← upperFrom_mulVec_clear s.factors (pivots i)]
    congr
    ext r
    exact Vector.get_ofFn _ r

/-- The system that was factored is solved, for every right-hand side, if no pivot is zero. -/
theorem Factors.solve {a : DenseMatrix K n n} {s : Factorization K n} (h : Factors a n s)
    (pivots : ∀ i, s.factors.entry i i ≠ 0) (b : Vector K n) :
    ∃ x, s.solve b = some x ∧ a.toMatrix *ᵥ x.get = b.get := by
  obtain ⟨x, ends, upper⟩ := backward s pivots ((List.finRange n).foldl s.forwardStep (s.permute b))
  refine ⟨x, ends, ?_⟩
  have reordered : a.toMatrix.submatrix (rowOrder s.swaps) id *ᵥ x.get = (s.permute b).get := by
    rw [← h, ← mulVec_mulVec, upper, forward]
  -- the exchanges have only reordered the equations
  ext r
  have row := congrFun reordered ((rowOrder s.swaps).symm r)
  rw [get_permute, Equiv.apply_symm_apply] at row
  simpa [mulVec, dotProduct] using row

end Nonlinear.Factorization
