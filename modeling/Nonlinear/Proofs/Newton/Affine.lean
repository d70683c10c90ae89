import Mathlib
import Nonlinear.Proofs.Affine
import Nonlinear.Proofs.Config
import Nonlinear.Proofs.Factorization.Solver
import Nonlinear.Proofs.Loop.Continuation
import Nonlinear.Proofs.Newton.Scratch
import Nonlinear.Proofs.ResidualNorm.Exact

/-! # Newton's method on affine systems

Without rounding the first full step from any guess solves a regular affine system, with either
source of the Jacobian.  The line search accepts the step whatever it asks for, and the vanishing
residual is no divergence, so the method ends after one iteration.
-/

namespace Nonlinear

open Scalar Matrix

variable {K : Type} [Field K] [LinearOrder K] [ExactConstants K] [IsStrictOrderedRing K] {n : Nat}

theorem scaled_size_pos [ExactRoots K] (x : K) : 0 < DifferenceStep.scaled.size x := by
  have least : (0 : K) < 1e-5 := by norm_num
  show 0 < ExactConstants.sqrt (ExactConstants.epsilon * larger |x| (1e-5 : K))
  rw [larger_exact]
  exact ExactRoots.sqrt_pos (mul_pos ExactRoots.epsilon_pos (lt_max_of_lt_right least))

namespace Newton

variable {config : NewtonConfig K} {linear : LinearSolver K n} {derivative : Derivative K n}
  {a : DenseMatrix K n n} {d guess : Vector K n}

section Step

variable {x step : Vector K n}

/-- The point that a full Newton step comes to is a zero. -/
theorem affineValues_target
    (solves : a.toMatrix *ᵥ step.get = ((affineValues a d x).map (-·)).get) :
    affineValues a d (Unbuffered.target x step 1.0) = Vector.replicate n 0 := by
  have moved : (Unbuffered.target x step (1.0 : K)).get = x.get + step.get := by
    funext i
    refine (Vector.get_ofFn _ i).trans ?_
    rw [literal_one]
    exact congrArg (x.get i + ·) (one_mul (step.get i))
  ext i hi
  have row := congrFun solves ⟨i, hi⟩
  have negated : ((affineValues a d x).map (-·)).get ⟨i, hi⟩ =
      -(affineValues a d x).get ⟨i, hi⟩ := Vector.getElem_map _ hi
  rw [Vector.getElem_replicate]
  show (affineValues a d _).get ⟨i, hi⟩ = 0
  rw [get_affineValues, moved, mulVec_add, Pi.add_apply, row, negated, get_affineValues]
  ring

end Step

/-- The solver answers every regular system with its solution. -/
def SolvesRegular (linear : LinearSolver K n) : Prop :=
  ∀ k a b, IsUnit a.toMatrix →
    ∃ x : Vector K n, linear k a b = some x.toArray ∧ a.toMatrix *ᵥ x.get = b.get

/-- The line search ends with a full step to a zero. -/
theorem stops_at_zero (valid : config.validate = .ok ()) {residual : K}
    (large : ¬ residual < config.tolerance) : stops config residual 1.0 0 := by
  obtain ⟨⟨tolerance, -⟩, -, ⟨-, decrease⟩, -⟩ := NewtonConfig.validate_ok_iff.mp valid
  rw [literal_zero] at tolerance
  rw [literal_one] at decrease
  have positive : 0 < residual := tolerance.trans_le (not_lt.mp large)
  refine .inr (.inl ⟨rfl, ?_⟩)
  rw [literal_one]
  show 0 ≤ (1 - config.sufficientDecrease * 1) * residual
  rw [mul_one]
  exact mul_nonneg (sub_nonneg.mpr decrease.le) positive.le

variable [ExactRoots K]

/-- A step that has led to a zero ends the method, and is no divergence. -/
theorem settles_at_zero (valid : config.validate = .ok ()) (s : State K n)
    (a : DenseMatrix K n n) (accepted : Accepted K n) (large : ¬ s.residual < config.tolerance)
    (zero : accepted.trial.fx = Vector.replicate n 0) :
    (s.after config a accepted).residual < config.tolerance ∧
      ¬ (s.after config a accepted).Blown config := by
  obtain ⟨⟨tolerance, -⟩, -, -, -, window, threshold⟩ := NewtonConfig.validate_ok_iff.mp valid
  rw [literal_zero] at tolerance
  have vanishes : (s.after config a accepted).residual = 0 := by
    show config.norm.norm accepted.trial.fx = 0
    rw [zero, ResidualNorm.norm_zeros]
  have falls : ¬ s.residual < (s.after config a accepted).residual := by
    rw [vanishes]
    exact not_lt_of_ge (tolerance.le.trans (not_lt.mp large))
  rw [vanishes]
  refine ⟨tolerance, ?_⟩
  rintro (infinite | above | often)
  · cases infinite
  · rw [vanishes] at above
    exact lt_asymm above (tolerance.trans threshold)
  · have none_yet : (s.after config a accepted).increases = 0 := if_neg falls
    rw [none_yet] at often
    exact window (Nat.le_zero.mp often)

/-- From a guess that is not good enough, one step leads to the zero, wherever the matrix comes
from. -/
theorem solve_one_step (nonempty : n ≠ 0) (valid : config.validate = .ok ())
    (large : ¬ config.norm.norm (affineValues a d guess) < config.tolerance)
    {step : Vector K n} {counters : Counters}
    (derived : (derivative.evaluate (affine a d)
      (.start config guess (affineValues a d guess))).outcome = .ok (a, counters))
    (solved : linear 1 a ((affineValues a d guess).map (-·)) = some step.toArray)
    (solves : a.toMatrix *ᵥ step.get = ((affineValues a d guess).map (-·)).get) :
    (solve config linear (affine a d) derivative guess).outcome =
      .ok ⟨Unbuffered.target guess step 1.0, Vector.replicate n 0,
        counters.countFunction.countIteration⟩ := by
  let s : State K n := .start config guess (affineValues a d guess)
  let accepted : Accepted K n :=
    ⟨1.0, ⟨Unbuffered.target guess step 1.0, Vector.replicate n 0⟩, counters.countFunction⟩
  obtain ⟨-, budget, -, -, window, -⟩ := NewtonConfig.validate_ok_iff.mp valid
  have evaluated : (s.spare.evaluate (affine a d) (counters.functionEvaluations + 1) guess
      step.toArray 1.0 : Course K n _).outcome = .ok accepted.trial := by
    have called : ((affine a d).call (counters.functionEvaluations + 1)
        (Unbuffered.target guess step 1.0) s.spare.fx : Course K n _).outcome =
          .ok (Vector.replicate n 0) := congrArg Except.ok (affineValues_target solves)
    rw [Trial.evaluate, target_toArray, Run.bind_eq, Run.bind_of_ok called]
    rfl
  have taken : (takeStep config (affine a d) guess step.toArray s.residual s.spare counters :
      Course K n _).outcome = .ok accepted := by
    refine backtrack_of_stops _ evaluated ?_
    rw [ResidualNorm.norm_zeros]
    exact stops_at_zero valid large
  obtain ⟨small, fine⟩ := settles_at_zero valid s a accepted large rfl
  have advanced := advance_of_proceeds window (.intro derived solved taken) fine
  have unfinished : ¬ (loop config linear (affine a d) derivative).done s := large
  have leads := Loop.Leads.next .here unfinished advanced
  rw [solve_eq_run nonempty valid rfl (all_isFinite_exact _), Run.after_outcome,
    Loop.run_of_finished leads small (Nat.one_le_iff_ne_zero.mpr budget)]
  rfl

omit [IsStrictOrderedRing K] [ExactRoots K] in
theorem solve_at_once (nonempty : n ≠ 0) (valid : config.validate = .ok ())
    (small : config.norm.norm (affineValues a d guess) < config.tolerance) :
    (solve config linear (affine a d) derivative guess).outcome =
      .ok ⟨guess, affineValues a d guess, ⟨0, 1, 0⟩⟩ := by
  have finished : (loop config linear (affine a d) derivative).done
      (.start config guess (affineValues a d guess)) := small
  rw [solve_eq_run nonempty valid rfl (all_isFinite_exact _), Run.after_outcome,
    Loop.run_of_done finished]
  rfl

omit [IsStrictOrderedRing K] [ExactRoots K] in
theorem evaluate_analytic {jacobian : JacobianFunction K n} (f : VectorFunction K n)
    {s : State K n}
    (returns : jacobian (s.counters.jacobianEvaluations + 1) s.current.x (.replicate 0.0) =
      ⟨a, none⟩) :
    ((Derivative.analytic jacobian).evaluate f s).outcome = .ok (a, s.counters.countJacobian) := by
  have called : (jacobian.call (s.counters.jacobianEvaluations + 1) s.current.x
      (s.matrix.fill 0.0) : Course K n _).outcome = .ok a := by
    rw [fill_eq_replicate]
    exact Written.outcome_ok_iff.mpr returns
  rw [Derivative.evaluate, Run.bind_eq, Run.bind_of_ok called]
  rfl

theorem evaluate_differences {s : State K n}
    (values : s.current.fx = affineValues a d s.current.x) :
    (Derivative.differences.evaluate (affine a d) s).outcome = .ok (a,
      { s.counters with functionEvaluations := s.counters.functionEvaluations + n }) := by
  rw [Derivative.evaluate, after_affine, values]
  exact fill_affine .scaled (fun _ => scaled_size_pos _) a d _ _

/-- For a regular affine system `a · x + d = 0` a guess with a residual below the tolerance is
answered itself.  From any other guess one iteration leads to the solution.  The Jacobian and the
forward differences give the same answer, and differ only in the calls that it takes. -/
theorem solve_affine (nonempty : n ≠ 0) (config : NewtonConfig K) (valid : config.validate = .ok ())
    (linear : LinearSolver K n) (solver : SolvesRegular linear) (a : DenseMatrix K n n)
    (regular : IsUnit a.toMatrix) (d guess : Vector K n) (jacobian : JacobianFunction K n)
    (returns : ∀ k x, jacobian k x (.replicate 0.0) = ⟨a, none⟩) :
    let residual := affineValues a d guess
    let outcome derivative := (solve config linear (affine a d) derivative guess).outcome
    (config.norm.norm residual < config.tolerance →
      outcome (.analytic jacobian) = .ok ⟨guess, residual, ⟨0, 1, 0⟩⟩ ∧
        outcome .differences = .ok ⟨guess, residual, ⟨0, 1, 0⟩⟩) ∧
    (¬ config.norm.norm residual < config.tolerance →
      ∃ x, (∀ y, affineValues a d y = Vector.replicate n 0 ↔ y = x) ∧
        outcome (.analytic jacobian) = .ok ⟨x, Vector.replicate n 0, ⟨1, 2, 1⟩⟩ ∧
        outcome .differences = .ok ⟨x, Vector.replicate n 0, ⟨1, 2 + n, 0⟩⟩) := by
  intro residual outcome
  constructor
  · intro small
    exact ⟨solve_at_once nonempty valid small, solve_at_once nonempty valid small⟩
  · intro large
    obtain ⟨step, solved, solves⟩ := solver 1 a (residual.map (-·)) regular
    refine ⟨Unbuffered.target guess step 1.0, ?_, ?_, ?_⟩
    · intro y
      exact affineValues_eq_zero_iff regular (affineValues_target solves)
    · exact solve_one_step nonempty valid large (evaluate_analytic _ (returns _ _)) solved solves
    · have counted : 2 + n = 1 + n + 1 := by omega
      rw [counted]
      exact solve_one_step nonempty valid large (evaluate_differences rfl) solved solves

omit [ExactRoots K] in
/-- The factorization solves every regular system if only a zero counts as a small pivot. -/
theorem lu_solvesRegular (nonempty : n ≠ 0) :
    SolvesRegular (LinearSolver.lu ⟨0⟩ : LinearSolver K n) := by
  intro k a b regular
  have : NeZero n := ⟨nonempty⟩
  have some_row : (Finset.univ : Finset (Fin n)).Nonempty := Finset.univ_nonempty
  have determinant : a.toMatrix.det ≠ 0 := ((isUnit_iff_isUnit_det _).mp regular).ne_zero
  obtain ⟨x, solved, solves⟩ := LuSolver.solve_of_regular le_rfl b some_row
    (LuSolver.not_singular_of_det rfl some_row determinant)
  exact ⟨x, by rw [LinearSolver.lu, solved]; rfl, solves⟩

/-- A system without a first pivot, solved with line search and a budget of one iteration. -/
theorem solve_affine_exchanged :
    let a : DenseMatrix ℚ 2 2 := #v[#v[0, 2], #v[1, 1]]
    let config : NewtonConfig ℚ :=
      { NewtonConfig.standard with lineSearch := true, maxIterations := 1, norm := .euclidean }
    let outcome derivative :=
      (solve config (LinearSolver.lu ⟨0⟩) (affine a #v[-4, -3]) derivative #v[50, 60]).outcome
    outcome (.analytic fun _ _ _ => ⟨a, none⟩) = .ok ⟨#v[1, 2], #v[0, 0], ⟨1, 2, 1⟩⟩ ∧
      outcome .differences = .ok ⟨#v[1, 2], #v[0, 0], ⟨1, 4, 0⟩⟩ := by
  intro a config outcome
  have regular : IsUnit a.toMatrix := by
    rw [isUnit_iff_isUnit_det, det_fin_two]
    exact isUnit_iff_ne_zero.mpr (by decide +kernel)
  have large : ¬ config.norm.norm (affineValues a #v[-4, -3] #v[50, 60]) < config.tolerance := by
    decide +kernel
  obtain ⟨x, unique, analytic, differences⟩ := (solve_affine two_ne_zero config (by decide +kernel)
    (LinearSolver.lu ⟨0⟩) (lu_solvesRegular two_ne_zero) a regular #v[-4, -3] #v[50, 60]
    (fun _ _ _ => ⟨a, none⟩) fun _ _ => rfl).2 large
  obtain rfl : #v[1, 2] = x := (unique #v[1, 2]).mp (by decide +kernel)
  exact ⟨analytic, differences⟩

end Newton

end Nonlinear
