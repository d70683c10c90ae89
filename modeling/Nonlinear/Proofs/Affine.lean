import Mathlib
import Nonlinear.Proofs.Factorization.Elimination
import Nonlinear.Proofs.ForwardDifference

/-! # Affine systems

Without rounding the forward differences of an affine residual are its matrix, whatever the steps
are.
-/

namespace Nonlinear

open Matrix

theorem get_set {α : Type} {n : Nat} (v : Vector α n) (j : Fin n) (x : α) :
    (v.set j x j.isLt).get = Function.update v.get j x := by
  funext i
  simp only [Vector.get_eq_getElem, Vector.getElem_set, Function.update_apply, Fin.ext_iff]
  exact ite_congr (propext eq_comm) (fun _ => rfl) fun _ => rfl

section Values

variable {K : Type} [Field K] {n : Nat}

/-- The values `a · x + d`. -/
def affineValues (a : DenseMatrix K n n) (d x : Vector K n) : Vector K n :=
  Vector.ofFn fun i => (a.toMatrix *ᵥ x.get) i + d.get i

/-- The residual `F(x) = a · x + d`. -/
def affine (a : DenseMatrix K n n) (d : Vector K n) : VectorFunction K n :=
  fun _ x _ => ⟨affineValues a d x, none⟩

@[simp]
theorem after_affine (a : DenseMatrix K n n) (d : Vector K n) (k : Nat) :
    (affine a d).after k = affine a d := rfl

theorem get_affineValues (a : DenseMatrix K n n) (d x : Vector K n) (i : Fin n) :
    (affineValues a d x).get i = (a.toMatrix *ᵥ x.get) i + d.get i :=
  Vector.get_ofFn _ i

/-- Moving a coordinate moves the values along a column. -/
theorem get_affineValues_set (a : DenseMatrix K n n) (d x : Vector K n) (i j : Fin n) (h : K) :
    (affineValues a d (x.set j (x.get j + h) j.isLt)).get i =
      (affineValues a d x).get i + a.entry i j * h := by
  have moved : Function.update x.get j (x.get j + h) = x.get + Pi.single j h := by
    funext l
    by_cases same : l = j
    · subst same
      simp
    · simp [same]
  have column : (a.toMatrix *ᵥ Pi.single j h) i = a.entry i j * h := by
    rw [mulVec_single]
    rfl
  rw [get_affineValues, get_affineValues, get_set, moved, mulVec_add, Pi.add_apply, column,
    add_right_comm]

/-- A zero of a regular affine residual is its only one. -/
theorem affineValues_eq_zero_iff (regular : IsUnit a.toMatrix)
    (zero : affineValues a d x = Vector.replicate n 0) {y : Vector K n} :
    affineValues a d y = Vector.replicate n 0 ↔ y = x := by
  constructor
  · intro zero'
    have same : a.toMatrix *ᵥ y.get = a.toMatrix *ᵥ x.get := by
      funext i
      have values : (affineValues a d y).get i = (affineValues a d x).get i := by
        rw [zero, zero']
      rwa [get_affineValues, get_affineValues, add_left_inj] at values
    have equal : y.get = x.get := mulVec_injective_of_isUnit regular same
    ext i hi
    exact congrFun equal ⟨i, hi⟩
  · rintro rfl
    exact zero

end Values

variable {K : Type} [Field K] [LinearOrder K] [ExactConstants K] [IsStrictOrderedRing K] {n : Nat}

theorem perturb_exact {step : DifferenceStep K} {x : Vector K n} {j : Fin n}
    (positive : 0 < step.size (x.get j)) :
    step.perturb x j = .ok ⟨x.set j (x.get j + step.size (x.get j)) j.isLt,
      step.size (x.get j)⟩ := by
  have usable : ¬ (¬ (0.0 : K) < step.size (x.get j) ∨
      ¬ Scalar.isFinite (step.size (x.get j)) = true) := by
    rw [literal_zero, not_or, not_not, not_not]
    exact ⟨positive, rfl⟩
  have distance : x.get j + step.size (x.get j) - x.get j = step.size (x.get j) :=
    add_sub_cancel_left _ _
  rw [DifferenceStep.perturb, if_neg usable, distance]

/-- The forward differences of an affine residual. -/
theorem fill_affine {ε : Type} (step : DifferenceStep K) {x : Vector K n}
    (positive : ∀ j, 0 < step.size (x.get j)) (a : DenseMatrix K n n) (d : Vector K n)
    (jacobian : DenseMatrix K n n) (counters : Counters) :
    ((DifferenceSweep.fill (affine a d) step x (affineValues a d x) jacobian counters).toRun :
      SystemRun K n ε _).outcome =
        .ok (a, { counters with functionEvaluations := counters.functionEvaluations + n }) := by
  obtain ⟨outcome, counted, entries⟩ := DifferenceSweep.fill_of_values (f := affine a d)
    (affineValues a d x) (fun j => perturb_exact (positive j)) (fun _ _ _ => rfl)
    (fun _ => all_isFinite_exact _) jacobian counters
  refine (DifferenceSweep.toRun_outcome outcome).trans (congrArg Except.ok (Prod.ext ?_ counted))
  ext i hi j hj
  have quotient := entries ⟨i, hi⟩ ⟨j, hj⟩
  rw [get_affineValues_set] at quotient
  refine quotient.trans ?_
  show (_ + a.entry ⟨i, hi⟩ ⟨j, hj⟩ * _ - _) / _ = a.entry ⟨i, hi⟩ ⟨j, hj⟩
  rw [add_sub_cancel_left, mul_div_cancel_right₀ _ (positive ⟨j, hj⟩).ne']

end Nonlinear
