import Nonlinear.Proofs.EquationOrder
import Nonlinear.Proofs.Newton.Course

/-! # Newton's method and the order of equations

Newton's method reads a residual by its norm and hands its components to the linear solver, and to
nothing else.  So in exact arithmetic, and with a solver that sees no order in the equations, it
visits the same points in whatever order the equations are listed.
-/

namespace Nonlinear.Newton

open Scalar

variable {α : Type} {n : Nat}

/-- The derivative with its rows in another order. -/
def Derivative.reordered (σ : Equiv.Perm (Fin n)) : Derivative α n → Derivative α n
  | analytic jacobian => .analytic (jacobian.reordered σ)
  | differences => .differences

/-- The trial at the same point, with its values in another order. -/
def Trial.reordered (σ : Equiv.Perm (Fin n)) (trial : Trial α n) : Trial α n :=
  ⟨trial.x, reorder σ trial.fx⟩

def Accepted.reordered (σ : Equiv.Perm (Fin n)) (accepted : Accepted α n) : Accepted α n :=
  { accepted with trial := accepted.trial.reordered σ }

def State.reordered (σ : Equiv.Perm (Fin n)) (s : State α n) : State α n :=
  { s with
    current := s.current.reordered σ
    spare := s.spare.reordered σ
    matrix := reorder σ s.matrix }

/-- A course with everything that belongs to an equation in another order. -/
abbrev relist {β γ : Type} (σ : Equiv.Perm (Fin n)) (result : β → γ) (r : Course α n β) :
    Course α n γ :=
  r.translate (SystemEntry.reordered σ) id result

section Step

variable [Scalar α] (σ : Equiv.Perm (Fin n))

theorem evaluate_reordered (derivative : Derivative α n) (f : VectorFunction α n)
    (s : State α n) :
    (derivative.reordered σ).evaluate (f.reordered σ) (s.reordered σ) =
      relist σ (Prod.map (reorder σ) id) (derivative.evaluate f s) := by
  cases derivative with
  | analytic jacobian =>
      simp only [Derivative.reordered, Derivative.evaluate, Run.bind_eq, State.reordered,
        Trial.reordered, fill_reorder, jacobian.call_reordered]
      apply Run.bind_translate
      intro a
      rfl
  | differences =>
      simp only [Derivative.reordered, Derivative.evaluate, State.reordered, Trial.reordered,
        fill_reorder]
      rw [relist, ← DifferenceSweep.toRun_reordered, ← DifferenceSweep.fill_reordered]
      rfl

theorem solveFor_reordered {linear : LinearSolver α n} (blind : linear.IgnoresOrder)
    (s : State α n) (a : DenseMatrix α n n) :
    solveFor linear (s.reordered σ) (reorder σ a) = relist σ id (solveFor linear s a) := by
  have system : linear (s.counters.iterations + 1) (reorder σ a)
      ((reorder σ s.current.fx).map (-·)) =
      linear (s.counters.iterations + 1) a (s.current.fx.map (-·)) := by
    rw [map_reorder]
    exact blind σ _ _ _
  cases answer : linear (s.counters.iterations + 1) a (s.current.fx.map (-·)) with
  | none =>
      rw [solveFor_none answer, solveFor_none (system.trans answer)]
      simp only [State.reordered, Trial.reordered, map_reorder]
      rfl
  | some step =>
      rw [solveFor_some answer, solveFor_some (system.trans answer)]
      simp only [State.reordered, Trial.reordered, map_reorder]
      rfl

theorem trial_reordered (f : VectorFunction α n) (trial : Trial α n) (k : Nat) (x : Vector α n)
    (step : Array α) (damping : α) :
    ((trial.reordered σ).evaluate (f.reordered σ) k x step damping : Course α n _) =
      relist σ (Trial.reordered σ) (trial.evaluate f k x step damping) := by
  simp only [Trial.evaluate, Run.bind_eq, Trial.reordered, f.call_reordered]
  apply Run.bind_translate
  intro fx
  rfl

end Step

variable {K : Type} [Field K] [LinearOrder K] [ExactConstants K] (σ : Equiv.Perm (Fin n))
  (config : NewtonConfig K) (f : VectorFunction K n)

theorem backtrack_reordered (x : Vector K n) (step : Array K) (residual : K) (remaining : Nat)
    (damping : K) (trial : Trial K n) (counters : Counters) :
    (backtrack config (f.reordered σ) x step residual remaining damping (trial.reordered σ)
        counters : Course K n _) =
      relist σ (Accepted.reordered σ)
        (backtrack config f x step residual remaining damping trial counters) := by
  induction remaining generalizing damping trial counters with
  | zero =>
      simp only [backtrack, Run.bind_eq, trial_reordered]
      apply Run.bind_translate
      intro next
      rfl
  | succ remaining ih =>
      simp only [backtrack, Run.bind_eq, trial_reordered]
      apply Run.bind_translate
      intro next
      refine Run.ite_translate ?_ (fun _ => ?_) fun _ => ?_
      · rw [Trial.reordered, ResidualNorm.norm_reorder]
      · rfl
      · exact ih _ _ _

theorem judge_reordered (s : State K n) (a : DenseMatrix K n n) (accepted : Accepted K n) :
    judge config (s.reordered σ) (reorder σ a) (accepted.reordered σ) =
      relist σ (State.reordered σ) (judge config s a accepted) := by
  have norm : config.norm.norm (accepted.reordered σ).trial.fx =
      config.norm.norm accepted.trial.fx := ResidualNorm.norm_reorder σ _ _
  simp only [judge, Run.bind_eq, norm]
  refine Run.note_bind_translate (SystemEntry.reordered σ) (.event (Event.step _ _ _)) ?_
  refine Run.ite_translate Iff.rfl (fun _ => ?_) fun _ => ?_
  · rfl
  refine Run.ite_translate Iff.rfl (fun _ => ?_) fun _ => ?_
  · rfl
  · rfl

section Solve

variable {linear : LinearSolver K n} (blind : linear.IgnoresOrder) (derivative : Derivative K n)

include blind

theorem advance_reordered (s : State K n) :
    advance config linear (f.reordered σ) (derivative.reordered σ) (s.reordered σ) =
      relist σ (State.reordered σ) (advance config linear f derivative s) := by
  rw [advance_eq, advance_eq, evaluate_reordered]
  apply Run.bind_translate
  intro answer
  show (solveFor linear (s.reordered σ) (reorder σ answer.1)).bind _ = _
  rw [solveFor_reordered σ blind]
  apply Run.bind_translate
  intro step
  show (backtrack config (f.reordered σ) s.current.x step s.residual config.maxBacktracks 1.0
    (s.spare.reordered σ) answer.2).bind _ = _
  rw [backtrack_reordered]
  apply Run.bind_translate
  intro accepted
  exact judge_reordered σ config s answer.1 accepted

theorem run_reordered (budget : Nat) (s : State K n) :
    (loop config linear (f.reordered σ) (derivative.reordered σ)).run budget (s.reordered σ) =
      relist σ (Solution.mapValue (reorder σ))
        ((loop config linear f derivative).run budget s) := by
  refine Loop.run_translate (State.reordered σ) ?done ?finish ?giveUp ?step budget s
  case done => exact fun _ => Iff.rfl
  case finish => exact fun _ => rfl
  case giveUp => exact fun _ => rfl
  case step => exact advance_reordered σ config f blind derivative

/-- The equations of a system may be solved in any order.  In exact arithmetic, with a linear solver
that sees no order in its equations, Newton's method visits the same points with the same damping
factors and norms, and comes to the same solution or the same failure; only the components of the
residuals, and the rows of Jacobians and of systems, stand in the other order. -/
theorem solve_reordered (guess : Vector K n) :
    solve config linear (f.reordered σ) (derivative.reordered σ) guess =
      (solve config linear f derivative guess).translate (SystemEntry.reordered σ) id
        (Solution.mapValue (reorder σ)) := by
  unfold solve
  refine Run.ite_translate Iff.rfl (fun _ => ?_) fun _ => ?_
  · rfl
  cases config.validate with
  | error fault => rfl
  | ok =>
      have first := f.call_reordered (ε := Event K) σ 1 guess (Vector.replicate n 0.0)
      rw [reorder_replicate] at first
      simp only [Run.bind_eq, first]
      apply Run.bind_translate
      intro fx
      refine Run.ite_translate ?_ (fun _ => ?_) fun _ => ?_
      · rw [all_reorder]
      · rfl
      -- The spare buffers hold zeros at first, which are the same in any order.
      have start : State.start config guess (reorder σ fx) =
          (State.start config guess fx).reordered σ := by
        simp only [State.start, State.reordered, Trial.reordered, ResidualNorm.norm_reorder,
          DenseMatrix.replicate, reorder_replicate]
      rw [iterate_eq_run, iterate_eq_run]
      have loop := run_reordered σ config f blind derivative config.maxIterations
        (.start config guess fx)
      rw [← start] at loop
      exact loop

end Solve

/-- A parabola and a line, listed in both orders. -/
theorem solve_reordered_parabola :
    let config : NewtonConfig ℚ := { NewtonConfig.standard with tolerance := 1 }
    let linear : LinearSolver ℚ 2 := .lu ⟨0⟩
    let f : VectorFunction ℚ 2 := fun _ v _ => ⟨#v[v[0] * v[0] - v[1], v[0] + v[1] - 2], none⟩
    let derivative : Derivative ℚ 2 :=
      .analytic fun _ v _ => ⟨#v[#v[2 * v[0], -1], #v[1, 1]], none⟩
    let σ : Equiv.Perm (Fin 2) := Equiv.swap 0 1
    linear.IgnoresOrder ∧
      (solve config linear f derivative #v[2, 1]).outcome =
        .ok ⟨#v[6 / 5, 4 / 5], #v[16 / 25, 0], ⟨1, 2, 1⟩⟩ ∧
      (solve config linear (f.reordered σ) (derivative.reordered σ) #v[2, 1]).outcome =
        .ok ⟨#v[6 / 5, 4 / 5], #v[0, 16 / 25], ⟨1, 2, 1⟩⟩ := by
  intro config linear f derivative σ
  have blind : linear.IgnoresOrder := LuSolver.lu_ignoresOrder rfl
  have solved : (solve config linear f derivative #v[2, 1]).outcome =
      .ok ⟨#v[6 / 5, 4 / 5], #v[16 / 25, 0], ⟨1, 2, 1⟩⟩ := Run.ok_of_toOption (by decide +kernel)
  refine ⟨blind, solved, ?_⟩
  rw [solve_reordered σ config f blind derivative, Run.translate_of_ok solved]
  rfl

end Nonlinear.Newton
