import Nonlinear.Proofs.Config
import Nonlinear.Proofs.FloatingPoint.Order
import Nonlinear.Proofs.Loop.Continuation
import Nonlinear.Proofs.Newton.Course

/-! # Newton's method with a smaller tolerance or a larger budget

Neither the tolerance nor the budget enters a step of Newton's method.  They decide only where a run
stops, so a run that is asked for more makes the calls of the other one and goes on.
-/

namespace Nonlinear

variable {α ε : Type} {n : Nat}

namespace SystemEntry

/-- The calls of the functions and of the linear solver in a trace, in order and with their
answers. -/
def calls (trace : List (SystemEntry α n ε)) : List (SystemEntry α n ε) :=
  trace.filter fun
    | event _ => false
    | _ => true

@[simp]
theorem calls_append (trace more : List (SystemEntry α n ε)) :
    calls (trace ++ more) = calls trace ++ calls more :=
  List.filter_append trace more

theorem calls_mono {trace more : List (SystemEntry α n ε)} (le : trace <+: more) :
    calls trace <+: calls more :=
  le.filter _

end SystemEntry

namespace Newton

open Scalar SystemEntry

/-- The course `long` makes the calls of `short` and perhaps more.  It fails as `short` does, save
where that reached its limit; and if it succeeds within `limit` iterations, then `short` succeeds
within as many. -/
structure Extends (limit : Nat) (short long : Course α n (Solution (Vector α n))) : Prop where
  calls : calls short.trace <+: calls long.trace
  error : ∀ e, short.outcome = .error e → (∀ m, e ≠ .iterationLimit m) → long.outcome = .error e
  success : ∀ r, long.outcome = .ok r → r.counters.iterations ≤ limit →
    ∃ r', short.outcome = .ok r' ∧ r'.counters.iterations ≤ r.counters.iterations

namespace Extends

theorem refl (limit : Nat) (course : Course α n (Solution (Vector α n))) :
    Extends limit course course where
  calls := List.prefix_refl _
  error _ fails _ := fails
  success r ok _ := ⟨r, ok, Nat.le_refl _⟩

theorem after {limit : Nat} {short long : Course α n (Solution (Vector α n))}
    (h : Extends limit short long) (trace : List (SystemEntry α n (Event α))) :
    Extends limit (short.after trace) (long.after trace) where
  calls := by simpa using h.calls
  error := h.error
  success := h.success

end Extends

variable [Scalar α] {config : NewtonConfig α} {tolerance : α} {maxIterations : Nat}
  {linear : LinearSolver α n} {f : VectorFunction α n} {derivative : Derivative α n}

theorem backtrack_tolerance (x : Vector α n) (step : Array α) (residual : α) (remaining : Nat)
    (damping : α) (trial : Trial α n) (counters : Counters) :
    (backtrack { config with tolerance, maxIterations } f x step residual remaining damping trial
      counters : SystemRun α n ε (Accepted α n)) =
      backtrack config f x step residual remaining damping trial counters := by
  induction remaining generalizing damping trial counters with
  | zero => rfl
  | succ remaining ih =>
      simp only [backtrack, ih]
      rfl

/-- Whether a point is a solution, or the last one, does not matter to the step from it. -/
theorem advance_tolerance (s : State α n) :
    advance { config with tolerance, maxIterations } linear f derivative s =
      advance config linear f derivative s := by
  simp only [advance_eq, takeStep, backtrack_tolerance]
  rfl

theorem leads_iterations {s t : State α n} {k : Nat} {trace : List (SystemEntry α n (Event α))}
    (window : config.divergenceWindow ≠ 0)
    (h : (loop config linear f derivative).Leads s k trace t) :
    t.counters.iterations = s.counters.iterations + k := by
  induction h with
  | here => rfl
  | next _ _ ok ih =>
      obtain ⟨proceeds, _⟩ := advance_ok window ok
      rw [proceeds.counted.1, ih, Nat.add_assoc]

@[simp]
theorem finish_calls (s : State α n) :
    calls ((loop config linear f derivative).finish s).trace = [] := rfl

@[simp]
theorem giveUp_calls (s : State α n) :
    calls ((loop config linear f derivative).giveUp s).trace = [] := rfl

/-- A loop that succeeds has come to a small residual in the iterations that it counts. -/
theorem leads_of_success {s : State α n} {budget : Nat} {r : Solution (Vector α n)}
    (window : config.divergenceWindow ≠ 0) (fresh : s.counters.iterations = 0)
    (ok : ((loop config linear f derivative).run budget s).outcome = .ok r) :
    ∃ trace t, (loop config linear f derivative).Leads s r.counters.iterations trace t ∧
      t.residual < config.tolerance := by
  obtain ⟨k, trace, t, _, leads, small, finished⟩ := Loop.finished_of_ok (fun _ => ⟨_, rfl⟩) ok
  have iterations := leads_iterations window leads
  rw [fresh, Nat.zero_add] at iterations
  cases finished
  exact ⟨trace, t, iterations.symm ▸ leads, small⟩

variable [LawfulScalar α]

theorem loop_continues (tighter : tolerance ≤ config.tolerance) :
    (loop { config with tolerance, maxIterations } linear f derivative).Continues
      (loop config linear f derivative) where
  step_eq := advance_tolerance
  done_of_done _ small := lt_of_lt_of_le small tighter

/-- The loop from a state in which no iterations are counted. -/
theorem run_extends (window : config.divergenceWindow ≠ 0)
    (tighter : tolerance ≤ config.tolerance) (longer : config.maxIterations ≤ maxIterations)
    (s : State α n) (fresh : s.counters.iterations = 0) :
    Extends config.maxIterations
      ((loop config linear f derivative).run config.maxIterations s)
      ((loop { config with tolerance, maxIterations } linear f derivative).run
        maxIterations s) := by
  let stricter : NewtonConfig α := { config with tolerance, maxIterations }
  have continues : (loop stricter linear f derivative).Continues
      (loop config linear f derivative) := loop_continues tighter
  have reached : ∀ r, ((loop stricter linear f derivative).run maxIterations s).outcome = .ok r →
      ∃ trace t, (loop stricter linear f derivative).Leads s r.counters.iterations trace t ∧
        t.residual < tolerance := fun r ok => leads_of_success window fresh ok
  rcases continues.run_cases config.maxIterations s with
    ⟨_, _, same⟩ | ⟨k, trace, t, le, passage, passage', ends⟩
  · rw [same maxIterations longer]
    exact .refl _ _
  have front := calls_mono (passage'.trace_prefix (Nat.le_trans le longer))
  rcases ends with ⟨_, eq⟩ | ⟨last, more, eq⟩
  · rw [eq]
    constructor
    case calls => simpa using front
    case error => exact fun _ fails => nomatch fails
    case success =>
      intro r ok _
      obtain ⟨_, _, leads, small⟩ := reached r ok
      have iterations := leads_iterations window passage
      rw [fresh, Nat.zero_add] at iterations
      exact ⟨_, rfl, iterations.symm ▸ passage'.le_of_done leads small⟩
  · rw [eq]
    constructor
    case calls => simpa using front
    case error =>
      intro e fails other
      cases fails
      exact absurd rfl (other _)
    case success =>
      -- a success within the limit would be in the state where the short run gave up
      intro r ok within
      obtain ⟨_, u, leads, small⟩ := reached r ok
      obtain rfl : k = r.counters.iterations :=
        Nat.le_antisymm (passage'.le_of_done leads small) (last ▸ within)
      obtain ⟨_, rfl⟩ := passage'.unique leads
      exact absurd (lt_of_lt_of_le small tighter) more

/-- Newton's method with a smaller tolerance and no smaller a budget makes the calls of the other
run, and perhaps more.  It fails as that one does, unless that only reached its limit; and if it
succeeds within the iterations that the other one had, then so does that, and no later. -/
theorem solve_extends (config : NewtonConfig α) (tolerance : α) (maxIterations : Nat)
    (linear : LinearSolver α n) (f : VectorFunction α n) (derivative : Derivative α n)
    (guess : Vector α n) (valid : config.validate = .ok ())
    (valid' : { config with tolerance, maxIterations }.validate = .ok ())
    (tighter : tolerance ≤ config.tolerance) (longer : config.maxIterations ≤ maxIterations) :
    Extends config.maxIterations (solve config linear f derivative guess)
      (solve { config with tolerance, maxIterations } linear f derivative guess) := by
  obtain ⟨_, _, _, _, window, _⟩ := NewtonConfig.validate_ok_iff.mp valid
  by_cases started : n ≠ 0 ∧
    ∃ fx, f 1 guess (Vector.replicate n 0.0) = ⟨fx, none⟩ ∧ fx.all isFinite = true
  · obtain ⟨nonempty, fx, first, finite⟩ := started
    rw [solve_eq_run nonempty valid first finite, solve_eq_run nonempty valid' first finite]
    exact (run_extends window tighter longer _ rfl).after _
  · rw [solve_unstarted valid valid' fun nonempty fx first finite =>
      started ⟨nonempty, fx, first, finite⟩]
    exact .refl _ _

/-- Steps towards the square root of two, in doubles: with a quarter of the tolerance one more is
made. -/
theorem solve_extends_sqrt_two :
    let f : VectorFunction Float 1 := fun _ x _ => ⟨x.map fun t => t * t - 2.0, none⟩
    let slope : Derivative Float 1 :=
      .analytic fun _ x _ => ⟨.ofFn fun _ _ => 2.0 * x.get 0, none⟩
    let config : NewtonConfig Float := { NewtonConfig.standard with tolerance := 0.4 }
    let stricter : NewtonConfig Float := { config with tolerance := 0.1, maxIterations := 60 }
    Extends 50 (solve config .diagonal f slope #v[1.0])
        (solve stricter .diagonal f slope #v[1.0]) ∧
      ((solve config .diagonal f slope #v[1.0]).outcome.map (·.counters)).toOption =
        some ⟨1, 2, 1⟩ ∧
      ((solve stricter .diagonal f slope #v[1.0]).outcome.map (·.counters)).toOption =
        some ⟨2, 3, 2⟩ := by
  intro f slope config stricter
  refine ⟨?_, by decide +kernel, by decide +kernel⟩
  exact solve_extends config 0.1 60 .diagonal f slope #v[1.0] (by decide +kernel)
    (by decide +kernel) (by decide +kernel) (by decide)

end Newton

end Nonlinear
