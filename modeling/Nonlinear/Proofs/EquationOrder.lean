import Mathlib
import Nonlinear.Proofs.Factorization.Solver
import Nonlinear.Proofs.ForwardDifference
import Nonlinear.Proofs.Loop.Translation
import Nonlinear.Proofs.ResidualNorm.Exact
import Nonlinear.Newton.LinearSolver

/-! # The order of equations

The equations of a system may be listed in any order.  A residual and its Jacobian then have their
rows in that order, and so have the differences of a sweep.  A norm does not change, since without
rounding neither a sum nor a maximum depends on the order of its terms.  Whether the solution of a
linear system changes is up to the solver: exchanges of rows are a part of elimination, but what
counts as a small pivot may depend on them.
-/

namespace Nonlinear

open Scalar

variable {α β ε : Type} {n : Nat}

/-- The components, or the rows, in another order. -/
def reorder (σ : Equiv.Perm (Fin n)) (v : Vector β n) : Vector β n :=
  Vector.ofFn fun i => v.get (σ i)

section Components

variable (σ : Equiv.Perm (Fin n))

@[simp]
theorem get_reorder (v : Vector β n) (i : Fin n) : (reorder σ v).get i = v.get (σ i) :=
  Vector.get_ofFn _ i

theorem getElem_reorder (v : Vector β n) (i : Nat) (hi : i < n) :
    (reorder σ v)[i] = v.get (σ ⟨i, hi⟩) :=
  Vector.getElem_ofFn hi

@[simp]
theorem reorder_inv (v : Vector β n) : reorder σ⁻¹ (reorder σ v) = v := by
  ext i hi
  simp [getElem_reorder, Vector.get]

theorem map_reorder {γ : Type} (g : β → γ) (v : Vector β n) :
    (reorder σ v).map g = reorder σ (v.map g) := by
  ext i hi
  simp [getElem_reorder, Vector.get]

@[simp]
theorem reorder_replicate (x : β) :
    reorder σ (Vector.replicate n x) = Vector.replicate n x := by
  ext i hi
  simp [getElem_reorder, Vector.get]

theorem toList_reorder (v : Vector β n) : (reorder σ v).toList.Perm v.toList := by
  have same : v.toList = List.ofFn v.get := by
    rw [← Vector.toList_ofFn]
    congr 1
    ext i hi
    simp [Vector.get]
  rw [reorder, Vector.toList_ofFn, same]
  exact σ.ofFn_comp_perm v.get

theorem all_reorder (good : β → Bool) (v : Vector β n) :
    (reorder σ v).all good = v.all good := by
  rw [← Vector.all_toList, ← Vector.all_toList]
  exact (toList_reorder σ v).all_eq

@[simp]
theorem entry_reorder (a : DenseMatrix α n n) (i j : Fin n) :
    DenseMatrix.entry (reorder σ a) i j = a.entry (σ i) j :=
  congrArg (Vector.get · j) (get_reorder σ a i)

theorem fill_reorder (x : α) (a : DenseMatrix α n n) :
    DenseMatrix.fill x (reorder σ a) = reorder σ (a.fill x) :=
  map_reorder σ _ a

theorem setColumn_reorder (a : DenseMatrix α n n) (j : Fin n) (column : Fin n → α) :
    DenseMatrix.setColumn (reorder σ a) j (fun i => column (σ i)) =
      reorder σ (a.setColumn j column) := by
  ext i hi k hk
  show DenseMatrix.entry (DenseMatrix.setColumn _ _ _) ⟨i, hi⟩ ⟨k, hk⟩ =
    DenseMatrix.entry (reorder σ _) ⟨i, hi⟩ ⟨k, hk⟩
  rw [DenseMatrix.entry_setColumn, entry_reorder, entry_reorder, DenseMatrix.entry_setColumn]

end Components

/-- The same writing, into a buffer whose contents are called by other names. -/
def Written.map (g : β → β) (w : Written β) : Written β := ⟨g w.contents, w.error⟩

/-- The residual with its equations in another order. -/
def VectorFunction.reordered (σ : Equiv.Perm (Fin n)) (f : VectorFunction α n) :
    VectorFunction α n :=
  fun k x buffer => (f k x (reorder σ⁻¹ buffer)).map (reorder σ)

/-- The Jacobian with its rows in another order. -/
def JacobianFunction.reordered (σ : Equiv.Perm (Fin n)) (jacobian : JacobianFunction α n) :
    JacobianFunction α n :=
  fun k x buffer => (jacobian k x (reorder σ⁻¹ buffer)).map (reorder σ)

def VectorCall.reordered (σ : Equiv.Perm (Fin n)) (call : VectorCall α n) : VectorCall α n :=
  ⟨call.point, call.answer.map (reorder σ)⟩

/-- The entry with its values, rows or equations in another order. -/
def SystemEntry.reordered (σ : Equiv.Perm (Fin n)) : SystemEntry α n ε → SystemEntry α n ε
  | residual call => residual (call.reordered σ)
  | jacobian point answer => jacobian point (answer.map (reorder σ))
  | linear a b answer => linear (reorder σ a) (reorder σ b) answer
  | event e => event e

def DifferenceSweep.reordered (σ : Equiv.Perm (Fin n)) (sweep : DifferenceSweep α n n n) :
    DifferenceSweep α n n n :=
  { sweep with
    jacobian := reorder σ sweep.jacobian
    calls := sweep.calls.map (VectorCall.reordered σ) }

section Calls

variable (σ : Equiv.Perm (Fin n))

theorem Written.outcome_map (g : β → β) (w : Written β) :
    ((w.map g).outcome : Except (Failure α) β) = w.outcome.map g := by
  obtain ⟨contents, error⟩ := w
  cases error with
  | none => rfl
  | some e => rfl

theorem VectorFunction.reordered_apply (f : VectorFunction α n) (k : Nat) (x buffer : Vector α n) :
    f.reordered σ k x (reorder σ buffer) = (f k x buffer).map (reorder σ) := by
  rw [reordered, reorder_inv]

theorem JacobianFunction.reordered_apply (jacobian : JacobianFunction α n) (k : Nat)
    (x : Vector α n) (buffer : DenseMatrix α n n) :
    jacobian.reordered σ k x (reorder σ buffer) = (jacobian k x buffer).map (reorder σ) := by
  rw [reordered, reorder_inv]

theorem VectorFunction.call_reordered (f : VectorFunction α n) (k : Nat) (x buffer : Vector α n) :
    ((f.reordered σ).call k x (reorder σ buffer) : SystemRun α n ε _) =
      (f.call k x buffer).translate (SystemEntry.reordered σ) id (reorder σ) := by
  rw [call, call, f.reordered_apply, Written.outcome_map]
  cases said : ((f k x buffer).outcome : Except (Failure α) (Vector α n)) with
  | error e => rfl
  | ok y => rfl

theorem JacobianFunction.call_reordered (jacobian : JacobianFunction α n) (k : Nat)
    (x : Vector α n) (buffer : DenseMatrix α n n) :
    ((jacobian.reordered σ).call k x (reorder σ buffer) : SystemRun α n ε _) =
      (jacobian.call k x buffer).translate (SystemEntry.reordered σ) id (reorder σ) := by
  rw [call, call, jacobian.reordered_apply, Written.outcome_map]
  cases said : ((jacobian k x buffer).outcome : Except (Failure α) (DenseMatrix α n n)) with
  | error e => rfl
  | ok y => rfl

end Calls

namespace DifferenceSweep

variable [Scalar α] (σ : Equiv.Perm (Fin n))

theorem columns_reordered (f : VectorFunction α n) (step : DifferenceStep α) (x fx : Vector α n)
    (js : List (Fin n)) (k : Nat) (buffer : Vector α n) (jacobian : DenseMatrix α n n)
    (counters : Counters) :
    columns (f.reordered σ) step x (reorder σ fx) js k (reorder σ buffer) (reorder σ jacobian)
        counters =
      (columns f step x fx js k buffer jacobian counters).reordered σ := by
  -- A call may leave anything in the buffer, so the induction is over sweeps from any buffer.
  induction js generalizing k buffer jacobian counters with
  | nil => rfl
  | cons j js ih =>
      rw [columns, columns]
      cases step.perturb x j with
      | error e => rfl
      | ok p =>
          dsimp only
          rw [f.reordered_apply, Written.outcome_map]
          cases said : ((f k p.point buffer).outcome : Except (Failure α) (Vector α n)) with
          | error e => rfl
          | ok y =>
              dsimp only [Except.map]
              rw [all_reorder]
              split
              · rfl
              · simp only [get_reorder]
                rw [setColumn_reorder σ jacobian j fun i => (y.get i - fx.get i) / p.divisor, ih]
                rfl

theorem fill_reordered (f : VectorFunction α n) (step : DifferenceStep α) (x fx : Vector α n)
    (jacobian : DenseMatrix α n n) (counters : Counters) :
    fill (f.reordered σ) step x (reorder σ fx) (reorder σ jacobian) counters =
      (fill f step x fx jacobian counters).reordered σ := by
  have sweep := columns_reordered σ f step x fx (List.finRange n) 1 (Vector.replicate n 0.0)
    jacobian counters
  rwa [reorder_replicate] at sweep

omit [Scalar α] in
theorem toRun_reordered (sweep : DifferenceSweep α n n n) :
    ((sweep.reordered σ).toRun : SystemRun α n ε _) =
      sweep.toRun.translate (SystemEntry.reordered σ) id (Prod.map (reorder σ) id) := by
  obtain ⟨jacobian, counters, calls, outcome⟩ := sweep
  simp only [toRun, reordered, Run.translate, List.map_map]
  cases outcome with
  | error e => rfl
  | ok _ => rfl

end DifferenceSweep

namespace ResidualNorm

variable {K : Type} [Field K] [LinearOrder K] [ExactConstants K]

theorem norm_reorder (σ : Equiv.Perm (Fin n)) (kind : ResidualNorm) (v : Vector K n) :
    kind.norm (reorder σ v) = kind.norm v := by
  have same := toList_reorder σ v
  unfold norm
  cases kind with
  | maxAbs => rw [maxAbsFrom_perm same]
  | euclidean => rw [sumOfSquares_perm same]
  | rms => rw [sumOfSquares_perm same]

end ResidualNorm

/-- The answer of the solver does not depend on the order of the equations. -/
def Newton.LinearSolver.IgnoresOrder (linear : LinearSolver α n) : Prop :=
  ∀ (σ : Equiv.Perm (Fin n)) (k : Nat) (a : DenseMatrix α n n) (b : Vector α n),
    linear k (reorder σ a) (reorder σ b) = linear k a b

namespace LuSolver

open Matrix

theorem toMatrix_reorder (σ : Equiv.Perm (Fin n)) (a : DenseMatrix α n n) :
    DenseMatrix.toMatrix (reorder σ a) = a.toMatrix.submatrix σ id := by
  ext i j
  exact entry_reorder σ a i j

variable {K : Type} [Field K]

theorem det_reorder_ne_zero (σ : Equiv.Perm (Fin n)) {a : DenseMatrix K n n} :
    (DenseMatrix.toMatrix (reorder σ a)).det ≠ 0 ↔ a.toMatrix.det ≠ 0 := by
  have sign : ((Equiv.Perm.sign σ : ℤ) : K) ≠ 0 := by
    rcases Int.units_eq_one_or (Equiv.Perm.sign σ) with one | minus <;> simp [*]
  rw [toMatrix_reorder, det_permute]
  exact mul_ne_zero_iff_left sign

theorem mulVec_reorder (σ : Equiv.Perm (Fin n)) {a : DenseMatrix K n n} {b x : Vector K n} :
    DenseMatrix.toMatrix (reorder σ a) *ᵥ x.get = (reorder σ b).get ↔
      a.toMatrix *ᵥ x.get = b.get := by
  have row (i : Fin n) : (DenseMatrix.toMatrix (reorder σ a) *ᵥ x.get) i =
      (a.toMatrix *ᵥ x.get) (σ i) := by
    rw [toMatrix_reorder]
    rfl
  simp only [funext_iff, row, get_reorder]
  exact σ.forall_congr_right (q := fun i => (a.toMatrix *ᵥ x.get) i = b.get i)

variable [LinearOrder K] [ExactConstants K] [IsStrictOrderedRing K] {s : LuSolver K}
  {a : DenseMatrix K n n} {b x : Vector K n}

/-- With a tolerance of zero the solver finds the solution whenever there is only one. -/
theorem solve_eq_some_iff (zero : s.pivotTolerance = 0) :
    s.solve a b = some x ↔ n ≠ 0 ∧ a.toMatrix.det ≠ 0 ∧ a.toMatrix *ᵥ x.get = b.get := by
  have tolerance : 0 ≤ s.pivotTolerance := zero.ge
  constructor
  · intro returned
    obtain ⟨nonempty, regular⟩ :=
      (isSome_solve_iff tolerance b).mp (Option.isSome_of_mem returned)
    obtain ⟨y, returned', solves⟩ := solve_of_regular tolerance b nonempty regular
    obtain rfl := Option.some.inj (returned'.symm.trans returned)
    obtain ⟨i, -⟩ := nonempty
    exact ⟨i.pos.ne', det_ne_zero tolerance ⟨i, Finset.mem_univ i⟩ regular, solves⟩
  · rintro ⟨size, regular, solves⟩
    have nonempty : (Finset.univ : Finset (Fin n)).Nonempty :=
      ⟨⟨0, Nat.pos_of_ne_zero size⟩, Finset.mem_univ _⟩
    obtain ⟨y, returned, solves'⟩ :=
      solve_of_regular tolerance b nonempty (not_singular_of_det zero nonempty regular)
    have unit : IsUnit a.toMatrix := (isUnit_iff_isUnit_det _).mpr (isUnit_iff_ne_zero.mpr regular)
    have same : y.get = x.get := mulVec_injective_of_isUnit unit (solves'.trans solves.symm)
    have equal : y = x := by
      ext i hi
      exact congrFun same ⟨i, hi⟩
    rw [returned, equal]

/-- Such a solver sees no order in the equations. -/
theorem lu_ignoresOrder (zero : s.pivotTolerance = 0) :
    (Newton.LinearSolver.lu s : Newton.LinearSolver K n).IgnoresOrder := by
  intro σ k a b
  have same : s.solve (reorder σ a) (reorder σ b) = s.solve a b := by
    apply Option.ext
    intro x
    rw [solve_eq_some_iff zero, solve_eq_some_iff zero, det_reorder_ne_zero, mulVec_reorder]
  exact congrArg (Option.map Vector.toArray) same

end LuSolver

end Nonlinear
