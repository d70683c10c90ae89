import Nonlinear.Newton.Iteration
import Nonlinear.Proofs.Config
import Nonlinear.Proofs.ForwardDifference
import Nonlinear.Proofs.Newton.Backtracking

/-! # The course of Newton's method

After the residual at the guess, Newton's method runs a loop over its states.  Here is that
loop, the bare step from one state to the next, and all the ways in which an iteration ends.
-/

namespace Nonlinear.Newton

open Scalar

variable {α : Type} [Scalar α] {n : Nat}

/-- The iterations of Newton's method as a loop over states. -/
def loop (config : NewtonConfig α) (linear : LinearSolver α n) (f : VectorFunction α n)
    (derivative : Derivative α n) :
    Loop (SystemEntry α n (Event α)) (Failure α) (State α n) (Solution (Vector α n)) where
  done s := s.residual < config.tolerance
  finish := found
  giveUp s :=
    ⟨[.event (.limit config.maxIterations s.residual)],
      .error (.iterationLimit config.maxIterations)⟩
  step := advance config linear f derivative

/-- The state at an initial guess with residual `fx`. -/
def State.start (config : NewtonConfig α) (guess fx : Vector α n) : State α n where
  current := ⟨guess, fx⟩
  spare := ⟨Vector.replicate n 0.0, Vector.replicate n 0.0⟩
  matrix := .replicate 0.0
  residual := config.norm.norm fx
  increases := 0
  counters := { functionEvaluations := 1 }

/-- The state after a trial is accepted. -/
def State.after (config : NewtonConfig α) (s : State α n) (a : DenseMatrix α n n)
    (accepted : Accepted α n) : State α n where
  current := accepted.trial
  spare := s.current
  matrix := a
  residual := config.norm.norm accepted.trial.fx
  increases := if s.residual < config.norm.norm accepted.trial.fx then s.increases + 1 else 0
  counters := accepted.counters.countIteration

/-- One accepted step, whatever becomes of the norm. -/
inductive Proceeds (config : NewtonConfig α) (linear : LinearSolver α n)
    (f : VectorFunction α n) (derivative : Derivative α n) (s : State α n) :
    State α n → Prop where
  | intro {a counters step accepted} :
      (derivative.evaluate f s).outcome = .ok (a, counters) →
      linear (s.counters.iterations + 1) a (s.current.fx.map (-·)) = some step →
      (takeStep config f s.current.x step s.residual s.spare counters :
        Course α n (Accepted α n)).outcome = .ok accepted →
      Proceeds config linear f derivative s (s.after config a accepted)

/-- The norm of a state that an iteration came to counts as divergence. -/
def State.Blown (config : NewtonConfig α) (s : State α n) : Prop :=
  isFinite s.residual = false ∨ config.divergenceThreshold < s.residual ∨
    config.divergenceWindow ≤ s.increases

variable {config : NewtonConfig α} {linear : LinearSolver α n} {f : VectorFunction α n}
  {derivative : Derivative α n} {guess : Vector α n}

theorem Derivative.iterations_of_ok {s : State α n} {a : DenseMatrix α n n}
    {counters : Counters} (h : (derivative.evaluate f s).outcome = .ok (a, counters)) :
    counters.iterations = s.counters.iterations := by
  cases derivative with
  | analytic jacobian =>
      obtain ⟨b, -, -, same⟩ := Run.ok_of_bind h
      cases same
      rfl
  | differences =>
      have iterations := DifferenceSweep.columns_iterations
        (f.after s.counters.functionEvaluations) .scaled s.current.x s.current.fx
        (List.finRange n) 1 (Vector.replicate n 0.0) (s.matrix.fill 0.0) s.counters
      rw [← (DifferenceSweep.toRun_ok h).2.2]
      exact iterations

theorem Derivative.evaluate_error {s : State α n} {e : Failure α}
    (h : (derivative.evaluate f s).outcome = .error e) :
    (∃ fault, e = .evaluation fault) ∨ ∃ size, e = .input (.step size) := by
  cases derivative with
  | analytic jacobian =>
      cases called : (jacobian.call (s.counters.jacobianEvaluations + 1) s.current.x
          (s.matrix.fill 0.0) : Course α n (DenseMatrix α n n)).outcome with
      | error e' =>
          rw [evaluate, Run.bind_eq, Run.bind_error called] at h
          cases h
          exact .inl (Written.outcome_error called)
      | ok a =>
          rw [evaluate, Run.bind_eq, Run.bind_of_ok called] at h
          cases h
  | differences => exact DifferenceSweep.columns_error (DifferenceSweep.toRun_error h)

theorem Proceeds.counted {s t : State α n} (h : Proceeds config linear f derivative s t) :
    t.counters.iterations = s.counters.iterations + 1 ∧
      t.current.Evaluated f t.counters.functionEvaluations ∧
      t.residual = config.norm.norm t.current.fx := by
  cases h with
  | intro derived _ taken =>
      obtain ⟨evaluated, iterations⟩ := takeStep_ok taken
      refine ⟨?_, evaluated, rfl⟩
      rw [← derivative.iterations_of_ok derived, ← iterations]
      rfl

theorem Proceeds.increases_eq {s t : State α n} (h : Proceeds config linear f derivative s t) :
    t.increases = if s.residual < t.residual then s.increases + 1 else 0 := by
  cases h with
  | intro => rfl

theorem iterate_eq_run (k : Nat) (s : State α n) :
    iterate config linear f derivative k s = (loop config linear f derivative).run k s := by
  induction k generalizing s with
  | zero => rfl
  | succ k ih =>
      rw [iterate, Loop.run]
      simp only [Run.bind_eq, funext ih]
      rfl

theorem solve_eq_run (nonempty : n ≠ 0) (valid : config.validate = .ok ()) {fx : Vector α n}
    (first : f 1 guess (Vector.replicate n 0.0) = ⟨fx, none⟩) (finite : fx.all isFinite = true) :
    solve config linear f derivative guess =
      ((loop config linear f derivative).run config.maxIterations (.start config guess fx)).after
        [.residual ⟨guess, ⟨fx, none⟩⟩] := by
  rw [solve, if_neg nonempty, valid]
  simp only [Run.bind_eq]
  rw [Run.bind_of_ok (VectorFunction.call_ok_iff.mpr first),
    if_neg (by simp only [finite, not_true, not_false_iff]), iterate_eq_run, VectorFunction.call,
    first]
  rfl

/-- Without a finite residual at the guess, configurations make no difference. -/
theorem solve_unstarted {config' : NewtonConfig α} (valid : config.validate = .ok ())
    (valid' : config'.validate = .ok ())
    (unstarted : n ≠ 0 → ∀ fx, f 1 guess (Vector.replicate n 0.0) = ⟨fx, none⟩ →
      ¬ fx.all isFinite = true) :
    solve config linear f derivative guess = solve config' linear f derivative guess := by
  by_cases empty : n = 0
  · rw [solve, solve, if_pos empty, if_pos empty]
  rw [solve, solve, if_neg empty, if_neg empty, valid, valid']
  refine Run.bind_congr fun fx called => ?_
  have infinite := unstarted empty fx (VectorFunction.call_ok_iff.mp called)
  rw [if_pos infinite, if_pos infinite]

theorem advance_eq (s : State α n) :
    advance config linear f derivative s = (derivative.evaluate f s).bind fun answer =>
      (solveFor linear s answer.1).bind fun step =>
        (takeStep config f s.current.x step s.residual s.spare answer.2).bind
          (judge config s answer.1) := rfl

/-- A run that is accepted begins with a call at its guess. -/
theorem first_of_answered (nonempty : n ≠ 0) (valid : config.validate = .ok ())
    (answered : Answered (solve config linear f derivative guess).trace) :
    ∃ fx, f 1 guess (Vector.replicate n 0.0) = ⟨fx, none⟩ := by
  rw [solve, if_neg nonempty, valid] at answered
  obtain ⟨fx, called⟩ := VectorFunction.call_of_answered (answered_of_bind answered).1
  exact ⟨fx, VectorFunction.call_ok_iff.mp called⟩

theorem solveFor_none {s : State α n} {a : DenseMatrix α n n}
    (h : linear (s.counters.iterations + 1) a (s.current.fx.map (-·)) = none) :
    solveFor linear s a =
      ⟨[.linear a (s.current.fx.map (-·)) none,
        .event (.singular s.counters.iterations s.residual)],
        .error (.singularJacobian s.counters.iterations)⟩ := by
  simp only [solveFor, Run.bind_eq, Run.note_bind, h, Run.fail]

theorem solveFor_some {s : State α n} {a : DenseMatrix α n n} {step : Array α}
    (h : linear (s.counters.iterations + 1) a (s.current.fx.map (-·)) = some step) :
    solveFor linear s a = ⟨[.linear a (s.current.fx.map (-·)) (some step)], .ok step⟩ := by
  simp only [solveFor, Run.bind_eq, Run.note_bind, h]
  rfl

theorem solveFor_of_none {s : State α n} {a : DenseMatrix α n n}
    (h : linear (s.counters.iterations + 1) a (s.current.fx.map (-·)) = none) :
    (solveFor linear s a).outcome = .error (.singularJacobian s.counters.iterations) := by
  rw [solveFor_none h]

theorem solveFor_of_some {s : State α n} {a : DenseMatrix α n n} {step : Array α}
    (h : linear (s.counters.iterations + 1) a (s.current.fx.map (-·)) = some step) :
    (solveFor linear s a).outcome = .ok step := by
  rw [solveFor_some h]

theorem judge_outcome (window : config.divergenceWindow ≠ 0) (s : State α n)
    (a : DenseMatrix α n n) (accepted : Accepted α n) :
    ((s.after config a accepted).Blown config ∧
      (judge config s a accepted).outcome = .error (.divergence
        (s.after config a accepted).counters.iterations (s.after config a accepted).residual)) ∨
    (¬ (s.after config a accepted).Blown config ∧
      (judge config s a accepted).outcome = .ok (s.after config a accepted)) := by
  let next := s.after config a accepted
  have outcome : (judge config s a accepted).outcome =
      (if ¬ isFinite next.residual ∨ config.divergenceThreshold < next.residual then diverged next
        else if s.residual < next.residual ∧ config.divergenceWindow ≤ next.increases then
          diverged next
        else pure next).outcome := rfl
  by_cases large : ¬ isFinite next.residual ∨ config.divergenceThreshold < next.residual
  · left
    rw [outcome, if_pos large]
    refine ⟨?_, rfl⟩
    rcases large with infinite | above
    · exact .inl (Bool.eq_false_iff.mpr infinite)
    · exact .inr (.inl above)
  · rw [outcome, if_neg large]
    rw [not_or, Decidable.not_not] at large
    by_cases grows : s.residual < next.residual ∧ config.divergenceWindow ≤ next.increases
    · left
      rw [if_pos grows]
      exact ⟨.inr (.inr grows.2), rfl⟩
    · right
      rw [if_neg grows]
      refine ⟨?_, rfl⟩
      rintro (infinite | above | often)
      · rw [large.1] at infinite
        cases infinite
      · exact large.2 above
      · by_cases up : s.residual < next.residual
        · exact grows ⟨up, often⟩
        · have none_yet : next.increases = 0 := if_neg up
          rw [none_yet] at often
          exact window (Nat.le_zero.mp often)

theorem advance_ok {s t : State α n} (window : config.divergenceWindow ≠ 0)
    (h : (advance config linear f derivative s).outcome = .ok t) :
    Proceeds config linear f derivative s t ∧ ¬ t.Blown config := by
  rw [advance_eq] at h
  obtain ⟨answer, derived, -, h⟩ := Run.ok_of_bind h
  obtain ⟨step, solved, -, h⟩ := Run.ok_of_bind h
  obtain ⟨accepted, taken, -, h⟩ := Run.ok_of_bind h
  have some_step : linear (s.counters.iterations + 1) answer.1 (s.current.fx.map (-·)) =
      some step := by
    cases solves : linear (s.counters.iterations + 1) answer.1 (s.current.fx.map (-·)) with
    | none =>
        rw [solveFor_of_none solves] at solved
        cases solved
    | some other =>
        rw [solveFor_of_some solves] at solved
        cases solved
        rfl
  rcases judge_outcome window s answer.1 accepted with ⟨-, outcome⟩ | ⟨fine, outcome⟩
  · rw [outcome] at h
    cases h
  · rw [outcome] at h
    cases h
    exact ⟨.intro derived some_step taken, fine⟩

theorem advance_of_proceeds {s t : State α n} (window : config.divergenceWindow ≠ 0)
    (h : Proceeds config linear f derivative s t) (fine : ¬ t.Blown config) :
    (advance config linear f derivative s).outcome = .ok t := by
  cases h with
  | @intro a counters step accepted derived solved taken =>
      rw [advance_eq, Run.bind_of_ok derived, Run.after_outcome,
        Run.bind_of_ok (solveFor_of_some solved), Run.after_outcome, Run.bind_of_ok taken,
        Run.after_outcome]
      rcases judge_outcome window s a accepted with ⟨blown, -⟩ | ⟨-, outcome⟩
      · exact absurd blown fine
      · exact outcome

/-- How an iteration fails in which no function reports an error. -/
theorem advance_error {s : State α n} {e : Failure α} (window : config.divergenceWindow ≠ 0)
    (answered : Answered (advance config linear f derivative s).trace)
    (h : (advance config linear f derivative s).outcome = .error e) :
    (derivative.evaluate f s).outcome = .error e ∨
    (∃ a counters, (derivative.evaluate f s).outcome = .ok (a, counters) ∧
      linear (s.counters.iterations + 1) a (s.current.fx.map (-·)) = none ∧
      e = .singularJacobian s.counters.iterations) ∨
    ∃ t, Proceeds config linear f derivative s t ∧ t.Blown config ∧
      e = .divergence t.counters.iterations t.residual := by
  rw [advance_eq] at answered h
  cases derived : (derivative.evaluate f s).outcome with
  | error e' =>
      rw [Run.bind_error derived] at h
      cases h
      exact .inl rfl
  | ok answer =>
      replace answered := (answered_of_bind answered).2 answer derived
      rw [Run.bind_of_ok derived, Run.after_outcome] at h
      right
      cases solved : linear (s.counters.iterations + 1) answer.1 (s.current.fx.map (-·)) with
      | none =>
          rw [Run.bind_error (solveFor_of_none solved)] at h
          cases h
          exact .inl ⟨answer.1, answer.2, rfl, solved, rfl⟩
      | some step =>
          have ok := solveFor_of_some solved
          replace answered := (answered_of_bind answered).2 step ok
          obtain ⟨accepted, taken⟩ := takeStep_of_answered (answered_of_bind answered).1
          rw [Run.bind_of_ok ok, Run.after_outcome, Run.bind_of_ok taken, Run.after_outcome] at h
          rcases judge_outcome window s answer.1 accepted with ⟨blown, outcome⟩ | ⟨-, outcome⟩
          · rw [outcome] at h
            cases h
            exact .inr ⟨_, .intro derived solved taken, blown, rfl⟩
          · rw [outcome] at h
            cases h

/-- A run that succeeds has started. -/
theorem started_of_ok {r : Solution (Vector α n)}
    (ok : (solve config linear f derivative guess).outcome = .ok r) :
    n ≠ 0 ∧ config.validate = .ok () ∧
      ∃ fx, f 1 guess (Vector.replicate n 0.0) = ⟨fx, none⟩ ∧ fx.all isFinite = true := by
  unfold solve at ok
  split at ok
  · cases ok
  · rename_i nonempty
    cases valid : config.validate with
    | error fault =>
        rw [valid] at ok
        cases ok
    | ok _ =>
        rw [valid] at ok
        obtain ⟨fx, called, -, ok⟩ := Run.ok_of_bind ok
        split at ok
        · cases ok
        · exact ⟨nonempty, rfl, fx, VectorFunction.call_ok_iff.mp called, Decidable.not_not.mp ‹_›⟩

/-- The state holds what some call gave at its point, and the norm of that. -/
def State.Judged (config : NewtonConfig α) (f : VectorFunction α n) (s : State α n) : Prop :=
  (∃ k, s.current.Evaluated f k) ∧ s.residual = config.norm.norm s.current.fx

theorem judged_of_leads {s t : State α n} {k : Nat} {trace : List (SystemEntry α n (Event α))}
    (window : config.divergenceWindow ≠ 0) (start : s.Judged config f)
    (h : (loop config linear f derivative).Leads s k trace t) : t.Judged config f := by
  cases h with
  | here => exact start
  | next _ _ ok =>
      obtain ⟨-, evaluated, residual⟩ := (advance_ok window ok).1.counted
      exact ⟨⟨_, evaluated⟩, residual⟩

/-- A solution is a point at which some call gave its value, and that has a small norm. -/
theorem solution_of_ok {r : Solution (Vector α n)}
    (ok : (solve config linear f derivative guess).outcome = .ok r) :
    (∃ k buffer, f k r.x buffer = ⟨r.value, none⟩) ∧
      config.norm.norm r.value < config.tolerance := by
  obtain ⟨nonempty, valid, fx, first, finite⟩ := started_of_ok ok
  obtain ⟨_, _, _, _, window, _⟩ := NewtonConfig.validate_ok_iff.mp valid
  rw [solve_eq_run nonempty valid first finite, Run.after_outcome] at ok
  obtain ⟨_, _, t, _, leads, small, finished⟩ := Loop.finished_of_ok (fun _ => ⟨_, rfl⟩) ok
  have start : (State.start config guess fx).Judged config f := ⟨⟨1, _, first⟩, rfl⟩
  obtain ⟨evaluated, residual⟩ := judged_of_leads window start leads
  cases finished
  change t.residual < _ at small
  rw [residual] at small
  exact ⟨evaluated, small⟩

end Nonlinear.Newton
