import Nonlinear.Newton.Backtracking
import Nonlinear.Proofs.Loop
import Nonlinear.Proofs.System

/-! # What backtracking accepts

A search along a step fails only where the residual does, and what it accepts is the answer of
its last call.
-/

namespace Nonlinear.Newton

open Scalar

variable {α ε : Type} [Scalar α] {n : Nat}
  {config : NewtonConfig α} {f : VectorFunction α n} {x : Vector α n} {step : Array α}
  {residual : α}

/-- The trial holds a point and what call `k` wrote there. -/
def Trial.Evaluated (trial : Trial α n) (f : VectorFunction α n) (k : Nat) : Prop :=
  ∃ buffer, f k trial.x buffer = ⟨trial.fx, none⟩

theorem Trial.evaluate_ok {trial next : Trial α n} {k : Nat} {damping : α}
    (h : (trial.evaluate f k x step damping : SystemRun α n ε (Trial α n)).outcome = .ok next) :
    next.Evaluated f k := by
  obtain ⟨y, called, -, same⟩ := Run.ok_of_bind h
  cases same
  exact ⟨_, VectorFunction.call_ok_iff.mp called⟩

theorem Trial.evaluate_of_answered {trial : Trial α n} {k : Nat} {damping : α}
    (h : Answered (trial.evaluate f k x step damping : SystemRun α n ε (Trial α n)).trace) :
    ∃ next, (trial.evaluate f k x step damping : SystemRun α n ε (Trial α n)).outcome =
      .ok next := by
  obtain ⟨y, ok⟩ := VectorFunction.call_of_answered (answered_of_bind h).1
  refine ⟨⟨trial.target x step damping, y⟩, ?_⟩
  rw [Trial.evaluate, Run.bind_eq, Run.bind_of_ok ok]
  rfl

/-- An accepted trial holds the answer of the last call, and no iteration is counted. -/
theorem backtrack_ok {remaining : Nat} {damping : α} {trial : Trial α n} {counters : Counters}
    {accepted : Accepted α n}
    (h : (backtrack config f x step residual remaining damping trial counters :
      SystemRun α n ε (Accepted α n)).outcome = .ok accepted) :
    accepted.trial.Evaluated f accepted.counters.functionEvaluations ∧
      accepted.counters.iterations = counters.iterations := by
  induction remaining generalizing damping trial counters with
  | zero =>
      obtain ⟨next, evaluated, -, same⟩ := Run.ok_of_bind h
      cases same
      exact ⟨Trial.evaluate_ok evaluated, rfl⟩
  | succ remaining ih =>
      obtain ⟨next, evaluated, -, h⟩ := Run.ok_of_bind h
      dsimp only at h
      split at h
      · cases h
        exact ⟨Trial.evaluate_ok evaluated, rfl⟩
      · have rest := ih h
        exact rest

/-- A trial with which the search ends is accepted at once. -/
theorem backtrack_of_stops (remaining : Nat) {damping : α} {trial next : Trial α n}
    {counters : Counters}
    (evaluated : (trial.evaluate f (counters.functionEvaluations + 1) x step damping :
      SystemRun α n ε (Trial α n)).outcome = .ok next)
    (stop : stops config residual damping (config.norm.norm next.fx)) :
    (backtrack config f x step residual remaining damping trial counters :
      SystemRun α n ε (Accepted α n)).outcome = .ok ⟨damping, next, counters.countFunction⟩ := by
  cases remaining with
  | zero =>
      rw [backtrack, Run.bind_eq, Run.bind_of_ok evaluated]
      rfl
  | succ remaining =>
      rw [backtrack, Run.bind_eq, Run.bind_of_ok evaluated]
      dsimp only
      rw [if_pos stop]
      rfl

/-- A search succeeds, with a trial of some kind, where all that it can try are evaluated and of
this kind. -/
theorem backtrack_of_trials {P : Trial α n → Prop} {D : α → Prop}
    (halves : ∀ damping, D damping → D (damping * 0.5))
    (trials : ∀ k damping (trial : Trial α n), D damping → ∃ next,
      (trial.evaluate f k x step damping : SystemRun α n ε (Trial α n)).outcome = .ok next ∧ P next)
    (remaining : Nat) {damping : α} (permitted : D damping) (trial : Trial α n)
    (counters : Counters) :
    ∃ accepted, (backtrack config f x step residual remaining damping trial counters :
      SystemRun α n ε (Accepted α n)).outcome = .ok accepted ∧ P accepted.trial := by
  induction remaining generalizing damping trial counters with
  | zero =>
      obtain ⟨next, ok, good⟩ :=
        trials (counters.functionEvaluations + 1) damping trial permitted
      refine ⟨⟨damping, next, counters.countFunction⟩, ?_, good⟩
      rw [backtrack, Run.bind_eq, Run.bind_of_ok ok]
      rfl
  | succ remaining ih =>
      obtain ⟨next, ok, good⟩ :=
        trials (counters.functionEvaluations + 1) damping trial permitted
      rw [backtrack, Run.bind_eq, Run.bind_of_ok ok]
      by_cases stop : stops config residual damping (config.norm.norm next.fx)
      · refine ⟨⟨damping, next, counters.countFunction⟩, ?_, good⟩
        rw [if_pos stop]
        rfl
      · rw [if_neg stop]
        exact ih (halves damping permitted) next counters.countFunction

theorem backtrack_of_answered {remaining : Nat} {damping : α} {trial : Trial α n}
    {counters : Counters}
    (h : Answered (backtrack config f x step residual remaining damping trial counters :
      SystemRun α n ε (Accepted α n)).trace) :
    ∃ accepted, (backtrack config f x step residual remaining damping trial counters :
      SystemRun α n ε (Accepted α n)).outcome = .ok accepted := by
  induction remaining generalizing damping trial counters with
  | zero =>
      obtain ⟨next, ok⟩ := Trial.evaluate_of_answered (answered_of_bind h).1
      refine ⟨⟨damping, next, counters.countFunction⟩, ?_⟩
      rw [backtrack, Run.bind_eq, Run.bind_of_ok ok]
      rfl
  | succ remaining ih =>
      obtain ⟨first, rest⟩ := answered_of_bind h
      obtain ⟨next, ok⟩ := Trial.evaluate_of_answered first
      replace rest := rest next ok
      rw [backtrack, Run.bind_eq, Run.bind_of_ok ok]
      by_cases stop : stops config residual damping (config.norm.norm next.fx)
      · refine ⟨⟨damping, next, counters.countFunction⟩, ?_⟩
        rw [if_pos stop]
        rfl
      · rw [if_neg stop] at rest ⊢
        exact ih rest

theorem takeStep_ok {trial : Trial α n} {counters : Counters} {accepted : Accepted α n}
    (h : (takeStep config f x step residual trial counters :
      SystemRun α n ε (Accepted α n)).outcome = .ok accepted) :
    accepted.trial.Evaluated f accepted.counters.functionEvaluations ∧
      accepted.counters.iterations = counters.iterations :=
  backtrack_ok h

theorem takeStep_of_answered {trial : Trial α n} {counters : Counters}
    (h : Answered (takeStep config f x step residual trial counters :
      SystemRun α n ε (Accepted α n)).trace) :
    ∃ accepted, (takeStep config f x step residual trial counters :
      SystemRun α n ε (Accepted α n)).outcome = .ok accepted :=
  backtrack_of_answered h

end Nonlinear.Newton
