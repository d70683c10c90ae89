import Mathlib.Control.Monad.Basic
import Nonlinear.Failure.Report
import Nonlinear.JacobianCheck
import Nonlinear.Proofs.Newton.Course
import Nonlinear.Proofs.Search.Propagation

/-! # Propagation of failures

Work on a system calls its functions in many places: at the guess, once for a Jacobian or once for
each of its columns, once for each trial of a step.  Wherever an error is reported, that call is the
last thing that happens, and the error is the outcome.  With the same for the scalar searches this
holds of every solver.
-/

namespace Nonlinear

open Scalar

variable {α ε : Type} {n : Nat}

/-- What an entry means for the work on a system, if a function reported an error there. -/
def SystemEntry.alarm : SystemEntry α n ε → Option (Failure α)
  | residual call => call.answer.error.map fun e => .evaluation (.reported e)
  | jacobian _ answer => answer.error.map fun e => .evaluation (.reported e)
  | linear _ _ _ => none
  | event _ => none

theorem Written.outcome_of_error {β : Type} {w : Written β} {failure : Failure α}
    (h : (w.error.map fun e => (.evaluation (.reported e) : Failure α)) = some failure) :
    w.outcome = .error failure := by
  obtain ⟨e, error, rfl⟩ := Option.map_eq_some_iff.mp h
  exact outcome_of_some error

theorem VectorFunction.call_heeds (f : VectorFunction α n) (k : Nat) (x buffer : Vector α n) :
    (f.call k x buffer : SystemRun α n ε (Vector α n)).Heeds SystemEntry.alarm :=
  Run.heeds_singleton fun _ => Written.outcome_of_error

theorem JacobianFunction.call_heeds (jacobian : JacobianFunction α n) (k : Nat)
    (x : Vector α n) (buffer : DenseMatrix α n n) :
    (jacobian.call k x buffer : SystemRun α n ε (DenseMatrix α n n)).Heeds SystemEntry.alarm :=
  Run.heeds_singleton fun _ => Written.outcome_of_error

theorem Run.heeds_events {β : Type} (events : List ε) (outcome : Except (Failure α) β) :
    (⟨events.map .event, outcome⟩ : SystemRun α n ε β).Heeds SystemEntry.alarm := by
  apply heeds_of_quiet
  intro entry mem
  obtain ⟨event, -, rfl⟩ := List.mem_map.mp mem
  rfl

variable [Scalar α]

theorem DifferenceSweep.columns_heeds (f : VectorFunction α n) (step : DifferenceStep α)
    (x fx : Vector α n) (js : List (Fin n)) (k : Nat) (buffer : Vector α n)
    (jacobian : DenseMatrix α n n) (counters : Counters) :
    ((columns f step x fx js k buffer jacobian counters).toRun :
      SystemRun α n ε _).Heeds SystemEntry.alarm := by
  have quiet {call : VectorCall α n} (answered : call.answer.error = none) :
      ∀ entry ∈ [(.residual call : SystemEntry α n ε)], SystemEntry.alarm entry = none := by
    intro entry mem
    obtain rfl := List.mem_singleton.mp mem
    rw [SystemEntry.alarm, answered]
    rfl
  induction js generalizing k buffer jacobian counters with
  | nil => exact Run.heeds_nil _
  | cons j js ih =>
      rcases columns_cons f step x fx j js k buffer jacobian counters with
        ⟨-, eq⟩ | ⟨-, ⟨_, spoils, eq⟩ | ⟨usable, _, rfl, eq⟩⟩
      · rw [eq]
        exact Run.heeds_nil _
      · rw [eq]
        cases spoils with
        | reported said =>
            refine Run.heeds_singleton fun failure raised => ?_
            rw [SystemEntry.alarm, said] at raised
            cases raised
            rfl
        | nonFinite answered _ => exact Run.heeds_of_quiet (quiet answered)
      · rw [eq]
        exact (ih _ _ _ _).after (quiet usable.1)

namespace Newton

variable (config : NewtonConfig α) (linear : LinearSolver α n) (f : VectorFunction α n)
  (derivative : Derivative α n)

theorem Trial.evaluate_heeds (trial : Trial α n) (k : Nat) (x : Vector α n) (step : Array α)
    (damping : α) :
    (trial.evaluate f k x step damping : SystemRun α n ε (Trial α n)).Heeds SystemEntry.alarm :=
  (f.call_heeds _ _ _).bind fun _ _ => Run.heeds_nil _

theorem backtrack_heeds (x : Vector α n) (step : Array α) (residual : α) (remaining : Nat)
    (damping : α) (trial : Trial α n) (counters : Counters) :
    (backtrack config f x step residual remaining damping trial counters :
      SystemRun α n ε (Accepted α n)).Heeds SystemEntry.alarm := by
  induction remaining generalizing damping trial counters with
  | zero =>
      exact (trial.evaluate_heeds f _ _ _ _).bind fun _ _ => Run.heeds_nil _
  | succ remaining ih =>
      refine (trial.evaluate_heeds f _ _ _ _).bind fun next _ => ?_
      dsimp only
      split
      · exact Run.heeds_nil _
      · exact ih _ _ _

theorem Derivative.evaluate_heeds (s : State α n) :
    (derivative.evaluate f s).Heeds SystemEntry.alarm := by
  cases derivative with
  | analytic jacobian =>
      exact (jacobian.call_heeds _ _ _).bind fun _ _ => Run.heeds_nil _
  | differences => exact DifferenceSweep.columns_heeds _ _ _ _ _ _ _ _ _

theorem solveFor_heeds (s : State α n) (a : DenseMatrix α n n) :
    (solveFor linear s a).Heeds SystemEntry.alarm := by
  unfold solveFor
  refine Run.Heeds.note_bind rfl ?_
  split
  · exact Run.heeds_nil _
  · exact Run.Heeds.note_bind rfl (Run.heeds_nil _)

omit [Scalar α] in
theorem diverged_heeds (s : State α n) : (diverged s).Heeds SystemEntry.alarm :=
  Run.Heeds.note_bind rfl (Run.heeds_nil _)

theorem judge_heeds (s : State α n) (a : DenseMatrix α n n) (accepted : Accepted α n) :
    (judge config s a accepted).Heeds SystemEntry.alarm := by
  refine Run.Heeds.note_bind rfl ?_
  exact Run.heeds_ite (diverged_heeds _) (Run.heeds_ite (diverged_heeds _) (Run.heeds_nil _))

theorem advance_heeds (s : State α n) :
    (advance config linear f derivative s).Heeds SystemEntry.alarm := by
  rw [advance_eq]
  refine (derivative.evaluate_heeds f s).bind fun answer _ => ?_
  refine (solveFor_heeds linear s answer.1).bind fun step _ => ?_
  refine (backtrack_heeds config f _ _ _ _ _ _ _).bind fun accepted _ => ?_
  exact judge_heeds config s answer.1 accepted

theorem solve_heeds (guess : Vector α n) :
    (solve config linear f derivative guess).Heeds SystemEntry.alarm := by
  unfold solve
  split
  · exact Run.heeds_nil _
  split
  · exact Run.heeds_nil _
  refine (f.call_heeds _ _ _).bind fun fx _ => ?_
  split
  · exact Run.heeds_nil _
  rw [iterate_eq_run]
  apply Loop.run_heeds
  case finish =>
    intro s
    exact Run.Heeds.note_bind rfl (Run.heeds_nil _)
  case giveUp =>
    intro s
    exact Run.heeds_events [_] _
  case step => exact advance_heeds config linear f derivative

theorem solve_rejects_iff (guess : Vector α n) :
    (solve config linear f derivative guess).Rejects ↔ n = 0 ∨ config.validate ≠ .ok () := by
  by_cases empty : n = 0
  · rw [solve, if_pos empty]
    exact iff_of_true ⟨_, rfl⟩ (.inl empty)
  rw [solve, if_neg empty]
  cases config.validate with
  | error fault => exact iff_of_true ⟨_, rfl⟩ (.inr fun same => by cases same)
  | ok _ =>
      refine iff_of_false (Run.not_rejects_of_bind (List.cons_ne_nil _ _) _) ?_
      rintro (not | not)
      · exact empty not
      · exact not rfl

end Newton

namespace JacobianCheck

variable (check : JacobianCheck α) (f : VectorFunction α n) (jacobian : JacobianFunction α n)
  (x : Vector α n)

theorem run_heeds : (check.run f jacobian x).Heeds SystemEntry.alarm := by
  unfold run
  split
  · exact Run.heeds_nil _
  refine (f.call_heeds _ _ _).bind fun fx _ => ?_
  split
  · exact Run.heeds_nil _
  refine (jacobian.call_heeds _ _ _).bind fun analytic _ => ?_
  split
  · exact Run.heeds_nil _
  refine Run.Heeds.bind (DifferenceSweep.columns_heeds _ _ _ _ _ _ _ _ _) fun answer _ => ?_
  exact Run.heeds_events _ _

theorem run_rejects_iff : (check.run f jacobian x).Rejects ↔ n = 0 := by
  by_cases empty : n = 0
  · rw [run, if_pos empty]
    exact iff_of_true ⟨_, rfl⟩ empty
  · rw [run, if_neg empty]
    exact iff_of_false (Run.not_rejects_of_bind (List.cons_ne_nil _ _) _) empty

end JacobianCheck

/-- In every solver, a call that fails is the last thing that happens, and the solver answers with
that failure.  In the scalar searches a value that is not finite is such a failure, so it never
comes into their states.  What the solvers reject they reject at once, and nothing else.  In a
report an error is still the one that the function gave. -/
theorem failures_propagate {α : Type} [FloatingPoint α] :
    (∀ (config : SearchConfig α) (f : ScalarFunction α) (a b : α),
      (Root.search config f a b).Heeds SearchEntry.alarm ∧
      (∀ k trace t, Root.Reaches config f a b k trace t → t.1.Finite) ∧
      ((Root.search config f a b).Rejects ↔
        isFinite a = false ∨ isFinite b = false ∨ config.validate ≠ .ok ())) ∧
    (∀ (config : SearchConfig α) (f : ScalarFunction α) (a b : α),
      (Minimum.search config f a b).Heeds SearchEntry.alarm ∧
      (∀ k trace t, Minimum.Reaches config f a b k trace t → t.1.Finite) ∧
      ((Minimum.search config f a b).Rejects ↔
        isFinite a = false ∨ isFinite b = false ∨ (a == b) = true ∨ config.validate ≠ .ok ())) ∧
    (∀ (n : Nat) (config : NewtonConfig α) (linear : Newton.LinearSolver α n)
      (f : VectorFunction α n) (derivative : Newton.Derivative α n) (guess : Vector α n),
      (Newton.solve config linear f derivative guess).Heeds SystemEntry.alarm ∧
      ((Newton.solve config linear f derivative guess).Rejects ↔
        n = 0 ∨ config.validate ≠ .ok ())) ∧
    (∀ (n : Nat) (check : JacobianCheck α) (f : VectorFunction α n)
      (jacobian : JacobianFunction α n) (x : Vector α n),
      (check.run f jacobian x).Heeds SystemEntry.alarm ∧
      ((check.run f jacobian x).Rejects ↔ n = 0)) ∧
    (∀ e, (Failure.evaluation (.reported e) : Failure α).report = .evaluationFailure e) ∧
    (∀ x : α, (Failure.evaluation (.nonFiniteValue x)).report =
      .evaluationFailure ⟨"function returned a non-finite value at x = " ++ numeral x⟩) ∧
    ∀ defect : InputDefect α, (Failure.input defect).report = .invalidInput defect.message := by
  refine ⟨fun config f a b => ?_, fun config f a b => ?_,
    fun n config linear f derivative guess => ?_, fun n check f jacobian x => ?_,
    fun e => rfl, fun x => rfl, fun defect => rfl⟩
  · exact ⟨Root.search_heeds config f a b, fun k trace t => Root.Reaches.finite,
      Root.search_rejects_iff config f a b⟩
  · exact ⟨Minimum.search_heeds config f a b, fun k trace t => Minimum.Reaches.finite,
      Minimum.search_rejects_iff config f a b⟩
  · exact ⟨Newton.solve_heeds config linear f derivative guess,
      Newton.solve_rejects_iff config linear f derivative guess⟩
  · exact ⟨check.run_heeds f jacobian x, check.run_rejects_iff f jacobian x⟩

/-- Squares less two, but no value at the third call. -/
def failsAtThird : ScalarFunction Float := fun k x =>
  if k = 3 then .error ⟨"no value"⟩ else .ok (x * x - 2.0)

theorem trace_failsAtThird :
    (Root.search ⟨0.25, 0.0, 10, false⟩ failsAtThird 1.0 2.0).trace =
      [.call 1.0 (.ok (1.0 * 1.0 - 2.0)), .call 2.0 (.ok (2.0 * 2.0 - 2.0))] ++
        .call ((Root.Bracket.between ⟨1.0, -1.0⟩ ⟨2.0, 2.0⟩).target ⟨0.25, 0.0, 10, false⟩)
          (.error ⟨"no value"⟩) :: [] := by
  have opens : Root.Opens ⟨0.25, 0.0, 10, false⟩ failsAtThird 1.0 2.0 ⟨1.0, -1.0⟩ ⟨2.0, 2.0⟩ :=
    { finite_left := by decide +kernel
      finite_right := by decide +kernel
      valid := by decide +kernel
      left := ⟨rfl, by decide +kernel, by decide +kernel⟩
      right := ⟨rfl, by decide +kernel, by decide +kernel⟩
      far_left := by decide +kernel
      far_right := by decide +kernel
      signs := by decide +kernel }
  have unsettled : ¬ (Root.Bracket.between (⟨1.0, -1.0⟩ : Sample Float) ⟨2.0, 2.0⟩).settled
      ⟨0.25, 0.0, 10, false⟩ := by decide +kernel
  rw [opens.search_eq]
  show _ ++ (Loop.run _ (9 + 1) _).trace = _
  rw [Loop.run_succ unsettled, Run.bind_error rfl]
  rfl

/-- The square root of two with a function that has no third value, and a search without a lower
end. -/
theorem failures_propagate_third_call :
    (Root.search ⟨0.25, 0.0, 10, false⟩ failsAtThird 1.0 2.0).outcome =
      .error (.evaluation (.reported ⟨"no value"⟩)) ∧
    (Root.search ⟨0.25, 0.0, 10, false⟩ failsAtThird (1.0 / 0.0) 2.0).Rejects := by
  obtain ⟨root, -⟩ := failures_propagate (α := Float)
  have third := (root ⟨0.25, 0.0, 10, false⟩ failsAtThird 1.0 2.0).1 _ _ _ _ trace_failsAtThird rfl
  have endless := (root ⟨0.25, 0.0, 10, false⟩ failsAtThird (1.0 / 0.0) 2.0).2.2
  exact ⟨third.2, endless.mpr (.inl (by decide +kernel))⟩

end Nonlinear
