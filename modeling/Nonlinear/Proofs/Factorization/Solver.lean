import Mathlib
import Nonlinear.Proofs.Factorization.Substitution

/-! # Linear systems in exact arithmetic

With exact numbers the solver errs on one side only.  What it returns solves the system, and it
returns nothing for a singular matrix; but a regular matrix may have pivots that it takes for zero.
-/

namespace Nonlinear.LuSolver

open Scalar Matrix

variable {n : Nat}

theorem mem_toList_iff {α : Type} {v : Vector α n} {x : α} : x ∈ v.toList ↔ ∃ i, v.get i = x := by
  rw [Vector.mem_toList_iff, Vector.mem_iff_getElem]
  constructor
  · rintro ⟨i, bound, rfl⟩
    exact ⟨⟨i, bound⟩, rfl⟩
  · rintro ⟨i, rfl⟩
    exact ⟨i, i.isLt, rfl⟩

variable {K : Type} [Field K] [LinearOrder K]

section Bounds

/-- The largest magnitude among the components of a vector that has some. -/
def largest (v : Vector K n) (nonempty : (Finset.univ : Finset (Fin n)).Nonempty) : K :=
  Finset.univ.sup' nonempty fun i => |v.get i|

/-- The smallest magnitude among the components of a vector that has some. -/
def smallest (v : Vector K n) (nonempty : (Finset.univ : Finset (Fin n)).Nonempty) : K :=
  Finset.univ.inf' nonempty fun i => |v.get i|

variable {v : Vector K n} {bound : K} (nonempty : (Finset.univ : Finset (Fin n)).Nonempty)

theorem largest_le_iff : largest v nonempty ≤ bound ↔ ∀ p ∈ v.toList, |p| ≤ bound := by
  simp only [largest, Finset.sup'_le_iff, Finset.mem_univ, true_imp_iff, mem_toList_iff,
    forall_exists_index, forall_apply_eq_imp_iff]

theorem smallest_le_iff : smallest v nonempty ≤ bound ↔ ∃ p ∈ v.toList, |p| ≤ bound := by
  simp only [smallest, Finset.inf'_le_iff, Finset.mem_univ, true_and, mem_toList_iff,
    exists_exists_eq_and]

theorem abs_le_largest (i : Fin n) : |v.get i| ≤ largest v nonempty :=
  (largest_le_iff nonempty).mp le_rfl _ (mem_toList_iff.mpr ⟨i, rfl⟩)

theorem smallest_le_abs (i : Fin n) : smallest v nonempty ≤ |v.get i| :=
  (smallest_le_iff nonempty).mpr ⟨_, mem_toList_iff.mpr ⟨i, rfl⟩, le_rfl⟩

theorem smallest_le_largest : smallest v nonempty ≤ largest v nonempty := by
  have ⟨i, _⟩ := nonempty
  exact (smallest_le_abs nonempty i).trans (abs_le_largest nonempty i)

theorem largest_nonneg [IsStrictOrderedRing K] : 0 ≤ largest v nonempty := by
  have ⟨i, _⟩ := nonempty
  exact (abs_nonneg (v.get i)).trans (abs_le_largest nonempty i)

end Bounds

variable [ExactConstants K]

/-- Exact numbers are finite, so only the pivots are tested. -/
theorem solve_eq (s : LuSolver K) (a : DenseMatrix K n n) (b : Vector K n)
    (nonempty : (Finset.univ : Finset (Fin n)).Nonempty) :
    s.solve a b =
      if s.singular (Factorization.of a).pivots then none else (Factorization.of a).solve b := by
  have size : n ≠ 0 := by
    obtain ⟨i, -⟩ := nonempty
    exact i.pos.ne'
  have entries : a.entries.all isFinite = true := List.all_eq_true.mpr fun _ _ => rfl
  simp only [LuSolver.solve, size, all_isFinite_exact, entries, not_true, or_self, if_false]
  split
  next => rfl
  next => cases (Factorization.of a).solve b <;> rfl

theorem solve?_square {k : Nat} (s : LuSolver K) (a : DenseMatrix K n n) (b : Vector K k) :
    s.solve? a b = if size : k = n then s.solve a (b.cast size) else none := by
  have same : a.map (·.cast rfl) = a := Vector.map_id' a
  simp only [solve?, same, dite_true]

variable [IsStrictOrderedRing K]

theorem foldl_larger_le_iff (values : List K) (start bound : K) :
    values.foldl (fun m p => larger m (magnitude p)) start ≤ bound ↔
      start ≤ bound ∧ ∀ p ∈ values, |p| ≤ bound :=
  (foldl_le_iff id (fun _ _ _ => rfl) rfl values).trans
    (and_congr_right fun _ => forall₂_congr fun _ _ => or_iff_right Bool.false_ne_true)

theorem foldl_larger (v : Vector K n) (nonempty : (Finset.univ : Finset (Fin n)).Nonempty) :
    v.toList.foldl (fun m p => larger m (magnitude p)) 0.0 = largest v nonempty := by
  apply eq_of_forall_ge_iff
  intro bound
  rw [foldl_larger_le_iff, literal_zero, ← largest_le_iff nonempty]
  exact and_iff_right_of_imp (largest_nonneg nonempty).trans

/-- That all pivots are zero needs no test of its own: then the smallest one is at most any multiple
of the largest. -/
theorem singular_iff (s : LuSolver K) (v : Vector K n)
    (nonempty : (Finset.univ : Finset (Fin n)).Nonempty) :
    s.singular v ↔ smallest v nonempty ≤ s.pivotTolerance * n * largest v nonempty := by
  simp only [singular]
  rw [foldl_larger v nonempty, literal_zero, beq_exact_iff, ofNat_exact]
  constructor
  · rintro (zero | small)
    · rw [zero, mul_zero, ← zero]
      exact smallest_le_largest nonempty
    · exact (smallest_le_iff nonempty).mpr small
  · intro small
    exact .inr ((smallest_le_iff nonempty).mp small)

section System

variable {s : LuSolver K} {a : DenseMatrix K n n}

theorem pivot_ne_zero (tolerance : 0 ≤ s.pivotTolerance)
    (nonempty : (Finset.univ : Finset (Fin n)).Nonempty)
    (regular : ¬ s.singular (Factorization.of a).pivots) (i : Fin n) :
    (Factorization.of a).factors.entry i i ≠ 0 := by
  rw [singular_iff s _ nonempty, not_le] at regular
  have least : 0 ≤ s.pivotTolerance * n * largest (Factorization.of a).pivots nonempty :=
    mul_nonneg (mul_nonneg tolerance n.cast_nonneg) (largest_nonneg nonempty)
  have pivot := (least.trans_lt regular).trans_le (smallest_le_abs nonempty i)
  rw [Factorization.pivots, DenseMatrix.diagonal, Vector.get_ofFn] at pivot
  exact abs_pos.mp pivot

theorem det_ne_zero (tolerance : 0 ≤ s.pivotTolerance)
    (nonempty : (Finset.univ : Finset (Fin n)).Nonempty)
    (regular : ¬ s.singular (Factorization.of a).pivots) : a.toMatrix.det ≠ 0 := by
  intro singular
  obtain ⟨i, zero⟩ := (Factorization.factors_of a).det_eq_zero_iff.mp singular
  exact pivot_ne_zero tolerance nonempty regular i zero

theorem solve_of_regular (tolerance : 0 ≤ s.pivotTolerance) (b : Vector K n)
    (nonempty : (Finset.univ : Finset (Fin n)).Nonempty)
    (regular : ¬ s.singular (Factorization.of a).pivots) :
    ∃ x, s.solve a b = some x ∧ a.toMatrix *ᵥ x.get = b.get := by
  rw [solve_eq s a b nonempty, if_neg regular]
  exact (Factorization.factors_of a).solve (pivot_ne_zero tolerance nonempty regular) b

theorem isSome_solve_iff (tolerance : 0 ≤ s.pivotTolerance) (b : Vector K n) :
    (s.solve a b).isSome ↔
      (Finset.univ : Finset (Fin n)).Nonempty ∧ ¬ s.singular (Factorization.of a).pivots := by
  constructor
  · intro returned
    have nonempty : (Finset.univ : Finset (Fin n)).Nonempty := by
      cases n with
      | zero => cases returned
      | succ n => exact Finset.univ_nonempty
    refine ⟨nonempty, fun singular => ?_⟩
    rw [solve_eq s a b nonempty, if_pos singular] at returned
    cases returned
  · rintro ⟨nonempty, regular⟩
    obtain ⟨x, returned, -⟩ := solve_of_regular tolerance b nonempty regular
    exact Option.isSome_of_mem returned

/-- With a tolerance of zero no regular matrix is taken for singular. -/
theorem not_singular_of_det (zero : s.pivotTolerance = 0)
    (nonempty : (Finset.univ : Finset (Fin n)).Nonempty) (regular : a.toMatrix.det ≠ 0) :
    ¬ s.singular (Factorization.of a).pivots := by
  rw [singular_iff s _ nonempty, zero, zero_mul, zero_mul, smallest_le_iff]
  rintro ⟨p, mem, small⟩
  obtain ⟨i, rfl⟩ := mem_toList_iff.mp mem
  have pivot := abs_nonpos_iff.mp small
  rw [Factorization.pivots, DenseMatrix.diagonal, Vector.get_ofFn] at pivot
  exact regular ((Factorization.factors_of a).det_eq_zero_iff.mpr ⟨i, pivot⟩)

end System

/-- In exact arithmetic, with a tolerance that is not negative, a solution that is returned has a
component for each unknown and solves the system, and none is returned for a singular matrix.  For
a system of at least one equation there is one just when every pivot is above the threshold. -/
theorem solve_exact {k : Nat} (s : LuSolver K) (tolerance : 0 ≤ s.pivotTolerance)
    (a : DenseMatrix K n n) (b : Vector K k) :
    (∀ x, s.solve? a b = some x → ∃ size : k = n, a.toMatrix *ᵥ x.get = (b.cast size).get) ∧
      (a.toMatrix.det = 0 → s.solve? a b = none) ∧
      ∀ nonempty : (Finset.univ : Finset (Fin n)).Nonempty,
        (s.solve? a b).isSome ↔
          k = n ∧
            s.pivotTolerance * n * largest (Factorization.of a).pivots nonempty <
              smallest (Factorization.of a).pivots nonempty := by
  rcases eq_or_ne k n with rfl | other
  · rw [solve?_square, dif_pos rfl, Vector.cast_rfl]
    have isSome_iff := isSome_solve_iff (a := a) tolerance b
    refine ⟨?_, ?_, ?_⟩
    · intro x returned
      obtain ⟨nonempty, regular⟩ := isSome_iff.mp (Option.isSome_of_mem returned)
      obtain ⟨x', returned', solves⟩ := solve_of_regular tolerance b nonempty regular
      obtain rfl := Option.some.inj (returned'.symm.trans returned)
      exact ⟨rfl, solves⟩
    · intro singular
      by_contra returned
      obtain ⟨nonempty, regular⟩ := isSome_iff.mp (Option.isSome_iff_ne_none.mpr returned)
      exact det_ne_zero tolerance nonempty regular singular
    · intro nonempty
      rw [isSome_iff, singular_iff s _ nonempty, not_le]
      simp [nonempty]
  · simp [solve?_square, other]

/-- Both columns of the first matrix need an exchange.  The rows of the other one are
proportional. -/
theorem solve_exact_exchanged :
    let s : LuSolver ℚ := standard
    let a : DenseMatrix ℚ 3 3 := #v[#v[0, 5, 1], #v[1, 3, 0], #v[4, 1, 2]]
    let b : Vector ℚ 3 := #v[13, 7, 12]
    let x : Vector ℚ 3 := #v[1, 2, 3]
    let proportional : DenseMatrix ℚ 2 2 := #v[#v[1, 2], #v[2, 4]]
    0 ≤ s.pivotTolerance ∧ s.solve? a b = some x ∧ a.toMatrix *ᵥ x.get = b.get ∧
      proportional.toMatrix.det = 0 ∧ s.solve? proportional #v[1, 2] = none := by
  intro s a b x proportional
  have tolerance : 0 ≤ s.pivotTolerance := ExactConstants.epsilon_nonneg
  have returned : s.solve? a b = some x := by decide +kernel
  have singular : proportional.toMatrix.det = 0 := by
    rw [Matrix.det_fin_two]
    decide +kernel
  obtain ⟨_, solves⟩ := (solve_exact s tolerance a b).1 x returned
  have refused := (solve_exact s tolerance proportional #v[1, 2]).2.1 singular
  exact ⟨tolerance, returned, solves, singular, refused⟩

end Nonlinear.LuSolver
