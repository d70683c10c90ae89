import Mathlib.Control.Monad.Basic
import Nonlinear.Log.Events
import Nonlinear.Proofs.Newton.Requests

/-! # The books of Newton's method

After the residual at the guess a run consists of completed iterations and of an ending.  Each
completed iteration leaves the requests for its matrix, a linear system, the trials along its step
and one event; the ending leaves one event as well, unless a function failed.  The counters of a
solution count just these requests.
-/

namespace Nonlinear.Newton

open Scalar SystemEntry

variable {α : Type} [Scalar α] {n : Nat}

section Journey

variable (config : NewtonConfig α) (linear : LinearSolver α n) (f : VectorFunction α n)
  (derivative : Derivative α n)

/-- A completed iteration from `s` to `t`: the requests for its matrix, its step, and the trials
along the step after none to `m` halvings, of which the last is accepted. -/
structure Iteration (s t : State α n) (slopes trials : List (SystemEntry α n (Event α)))
    (step : Array α) (m : Nat) : Prop where
  proceeds : Proceeds config linear f derivative s t
  slopes : Asks slopes (derivative.requests s.current.x)
  solved : linear (s.counters.iterations + 1) t.matrix (s.current.fx.map (-·)) = some step
  trials : Asks trials (s.spare.requests s.current.x step 0 (m + 1))
  few : m ≤ config.maxBacktracks
  without : config.lineSearch = false → m = 0
  accepted : t.current.x = s.spare.target s.current.x step (halved m)
  counters : t.counters =
    ⟨s.counters.iterations + 1,
      s.counters.functionEvaluations + derivative.residuals + (m + 1),
      s.counters.jacobianEvaluations + derivative.jacobians⟩

/-- What a completed iteration leaves in the trace. -/
def Iteration.entries (s t : State α n) (slopes trials : List (SystemEntry α n (Event α)))
    (step : Array α) (m number : Nat) : List (SystemEntry α n (Event α)) :=
  slopes ++ .linear t.matrix (s.current.fx.map (-·)) (some step) ::
    (trials ++ [.event (.step number t.residual (halved m))])

/-- `k` completed iterations lead from one state to another and leave a trace. -/
inductive Journey (s : State α n) :
    (k : Nat) → List (SystemEntry α n (Event α)) → State α n → Prop where
  | here : Journey s 0 [] s
  | next {k trace t u slopes trials step m} : Journey s k trace t →
      Iteration config linear f derivative t u slopes trials step m →
      Journey s (k + 1) (trace ++ Iteration.entries t u slopes trials step m (k + 1)) u

/-- How a run ends in the state `t`, to which `k` completed iterations have led. -/
inductive Closes (k : Nat) (t : State α n) : Course α n (Solution (Vector α n)) → Prop where
  | converged : Closes k t
      ⟨[.event (.converged t.residual t.counters)], .ok ⟨t.current.x, t.current.fx, t.counters⟩⟩
  | exhausted : k = config.maxIterations →
      Closes k t ⟨[.event (.limit k t.residual)], .error (.iterationLimit k)⟩
  | diverged : 0 < k →
      Closes k t ⟨[.event (.diverged k t.residual)], .error (.divergence k t.residual)⟩
  | singular {slopes a} : Asks slopes (derivative.requests t.current.x) →
      linear (k + 1) a (t.current.fx.map (-·)) = none →
      Closes k t ⟨slopes ++ [.linear a (t.current.fx.map (-·)) none,
        .event (.singular k t.residual)], .error (.singularJacobian k)⟩
  /-- There is no finite residual at the guess. -/
  | unstarted {fault} : k = 0 → Closes k t ⟨[], .error (.evaluation fault)⟩
  /-- On the way to a matrix something failed. -/
  | slopeless {slopes requests e} : Asks slopes requests →
      requests <+: derivative.requests t.current.x →
      ((∃ fault, e = .evaluation fault) ∨ ∃ size, e = .input (.step size)) →
      Closes k t ⟨slopes, .error e⟩
  /-- The last of some trials failed. -/
  | untried {slopes a step trials m fault} : Asks slopes (derivative.requests t.current.x) →
      linear (k + 1) a (t.current.fx.map (-·)) = some step →
      Asks trials (t.spare.requests t.current.x step 0 (m + 1)) → m ≤ config.maxBacktracks →
      (config.lineSearch = false → m = 0) →
      Closes k t ⟨slopes ++ .linear a (t.current.fx.map (-·)) (some step) :: trials,
        .error (.evaluation fault)⟩

end Journey

variable {config : NewtonConfig α} {linear : LinearSolver α n} {f : VectorFunction α n}
  {derivative : Derivative α n}

theorem loop_step (s : State α n) :
    (loop config linear f derivative).step s = advance config linear f derivative s := rfl

theorem judge_run (config : NewtonConfig α) (s : State α n) (a : DenseMatrix α n n)
    (accepted : Accepted α n) :
    let t := s.after config a accepted
    let event : SystemEntry α n (Event α) :=
      .event (.step t.counters.iterations t.residual accepted.damping)
    judge config s a accepted = ⟨[event], .ok t⟩ ∨
      judge config s a accepted =
        ⟨[event, .event (.diverged t.counters.iterations t.residual)],
          .error (.divergence t.counters.iterations t.residual)⟩ := by
  let t := s.after config a accepted
  have judged : judge config s a accepted =
      (if ¬ isFinite t.residual ∨ config.divergenceThreshold < t.residual then diverged t
        else if s.residual < t.residual ∧ config.divergenceWindow ≤ t.increases then diverged t
        else pure t).after
          [.event (.step t.counters.iterations t.residual accepted.damping)] := rfl
  rw [judged]
  split
  · exact .inr rfl
  · split
    · exact .inr rfl
    · exact .inl rfl

theorem Iteration.of_taken {s : State α n} {slopes : List (SystemEntry α n (Event α))}
    {a : DenseMatrix α n n} {counters : Counters} {step : Array α} {accepted : Accepted α n}
    {m : Nat} (derived : (derivative.evaluate f s).outcome = .ok (a, counters))
    (asks : Asks slopes (derivative.requests s.current.x))
    (counted : counters =
      { s.counters with
        functionEvaluations := s.counters.functionEvaluations + derivative.residuals
        jacobianEvaluations := s.counters.jacobianEvaluations + derivative.jacobians })
    (solved : linear (s.counters.iterations + 1) a (s.current.fx.map (-·)) = some step)
    (taken : (takeStep config f s.current.x step s.residual s.spare counters :
      Course α n (Accepted α n)).outcome = .ok accepted)
    (tries : Tries config s.spare s.current.x step 0 config.maxBacktracks counters
      (takeStep config f s.current.x step s.residual s.spare counters :
        Course α n (Accepted α n)) m) :
    accepted.damping = halved m ∧
      Iteration config linear f derivative s (s.after config a accepted) slopes
        (takeStep config f s.current.x step s.residual s.spare counters :
          Course α n (Accepted α n)).trace step m := by
  obtain ⟨damping, point, count⟩ := tries.accepted accepted taken
  rw [Nat.zero_add] at damping point
  refine ⟨damping, .intro derived solved taken, asks, solved, tries.asks, tries.few,
    tries.without, point, ?_⟩
  rw [State.after, count, counted]
  rfl

/-- All that one iteration can do. -/
theorem advance_cases (config : NewtonConfig α) (linear : LinearSolver α n)
    (f : VectorFunction α n) (derivative : Derivative α n) (s : State α n) :
    (∃ t slopes trials step m, Iteration config linear f derivative s t slopes trials step m ∧
      (advance config linear f derivative s =
          ⟨Iteration.entries s t slopes trials step m t.counters.iterations, .ok t⟩ ∨
        advance config linear f derivative s =
          ⟨Iteration.entries s t slopes trials step m t.counters.iterations ++
            [.event (.diverged t.counters.iterations t.residual)],
            .error (.divergence t.counters.iterations t.residual)⟩)) ∨
    ∃ e, (advance config linear f derivative s).outcome = .error e ∧
      Closes config linear derivative s.counters.iterations s
        ⟨(advance config linear f derivative s).trace, .error e⟩ := by
  obtain ⟨requests, part, asks, whole⟩ := derivative.evaluate_asks f s
  rw [advance_eq]
  cases derived : (derivative.evaluate f s).outcome with
  | error e =>
      right
      rw [Run.bind_error derived]
      exact ⟨e, rfl, .slopeless asks part (derivative.evaluate_error derived)⟩
  | ok answer =>
      obtain ⟨a, counters⟩ := answer
      obtain ⟨rfl, counted⟩ := whole a counters derived
      rw [Run.bind_of_ok derived]
      dsimp only
      cases solved : linear (s.counters.iterations + 1) a (s.current.fx.map (-·)) with
      | none =>
          right
          rw [solveFor_none solved]
          exact ⟨_, rfl, .singular asks solved⟩
      | some step =>
          rw [solveFor_some solved]
          obtain ⟨m, tries⟩ := takeStep_tries (ε := Event α) config f s.current.x step s.residual
            s.spare counters
          rw [Run.bind_of_ok rfl]
          cases taken : (takeStep config f s.current.x step s.residual s.spare counters :
              Course α n (Accepted α n)).outcome with
          | error e =>
              obtain ⟨fault, rfl⟩ := tries.fails e taken
              right
              rw [Run.bind_error taken]
              exact ⟨_, rfl, .untried asks solved tries.asks tries.few tries.without⟩
          | ok accepted =>
              obtain ⟨damping, iteration⟩ :=
                Iteration.of_taken derived asks counted solved taken tries
              left
              rw [Run.bind_of_ok taken]
              refine ⟨_, _, _, _, _, iteration, ?_⟩
              rcases judge_run config s a accepted with same | same
              · left
                rw [same, damping]
                rfl
              · right
                rw [same, damping]
                simp only [Run.after, Iteration.entries, List.append_assoc, List.cons_append,
                  List.nil_append]
                rfl

namespace Iteration

variable {s t : State α n} {slopes trials : List (SystemEntry α n (Event α))} {step : Array α}
  {m : Nat}

theorem residuals (h : Iteration config linear f derivative s t slopes trials step m)
    (number : Nat) :
    (residualPoints (entries s t slopes trials step m number)).length =
      derivative.residuals + (m + 1) := by
  have rest : residualPoints (.linear t.matrix (s.current.fx.map (-·)) (some step) ::
      (trials ++ [.event (.step number t.residual (halved m))])) = residualPoints trials := by
    show residualPoints (trials ++ [_]) = _
    rw [residualPoints_append]
    exact List.append_nil _
  rw [entries, residualPoints_append, List.length_append, rest, h.slopes.residuals,
    h.trials.residuals, derivative.countP_requests, Trial.requests, Request.countP_residuals,
    List.length_range']

end Iteration

namespace Journey

variable {s t : State α n} {k : Nat} {trace : List (SystemEntry α n (Event α))}

theorem iterations (h : Journey config linear f derivative s k trace t) :
    t.counters.iterations = s.counters.iterations + k := by
  induction h with
  | here => rfl
  | next _ iteration ih => rw [iteration.counters, ih, Nat.add_assoc]

theorem jacobians (h : Journey config linear f derivative s k trace t) :
    t.counters.jacobianEvaluations =
      s.counters.jacobianEvaluations + k * derivative.jacobians := by
  induction h with
  | here => rw [Nat.zero_mul, Nat.add_zero]
  | next _ iteration ih =>
      rw [iteration.counters, Nat.succ_mul, ← Nat.add_assoc s.counters.jacobianEvaluations, ← ih]

theorem functions (h : Journey config linear f derivative s k trace t) :
    t.counters.functionEvaluations =
      s.counters.functionEvaluations + (residualPoints trace).length := by
  induction h with
  | here => rfl
  | next _ iteration ih =>
      rw [residualPoints_append, List.length_append, iteration.residuals, iteration.counters, ih,
        Nat.add_assoc, Nat.add_assoc]

/-- Each iteration calls the residual for its matrix, once for its step, and once for each halving
of the step. -/
theorem bounds (h : Journey config linear f derivative s k trace t) :
    k * (derivative.residuals + 1) ≤ (residualPoints trace).length ∧
      (residualPoints trace).length ≤
        k * (derivative.residuals + 1) + k * config.maxBacktracks ∧
      (config.lineSearch = false →
        (residualPoints trace).length = k * (derivative.residuals + 1)) := by
  induction h with
  | here => simp [residualPoints]
  | @next k _ _ _ _ _ _ m _ iteration ih =>
      have few := iteration.few
      have without := iteration.without
      rw [residualPoints_append, List.length_append, iteration.residuals, Nat.succ_mul,
        Nat.succ_mul]
      refine ⟨by omega, by omega, fun off => ?_⟩
      have none := without off
      have all := ih.2.2 off
      omega

theorem of_leads (h : (loop config linear f derivative).Leads s k trace t)
    (fresh : s.counters.iterations = 0) : Journey config linear f derivative s k trace t := by
  induction h with
  | here => exact .here
  | @next k trace t u leads more ok ih =>
      have number := ih.iterations
      rw [fresh, Nat.zero_add] at number
      rw [loop_step] at ok ⊢
      rcases advance_cases config linear f derivative t with
        ⟨t', slopes, trials, step, m, iteration, same | same⟩ | ⟨e, error, -⟩
      · rw [same] at ok ⊢
        cases ok
        have next := Journey.next ih iteration
        rwa [iteration.counters, number]
      · rw [same] at ok
        cases ok
      · rw [ok] at error
        cases error

end Journey

/-- The loop of a run is a journey and an ending. -/
theorem run_journey (config : NewtonConfig α) (linear : LinearSolver α n) (f : VectorFunction α n)
    (derivative : Derivative α n) (s : State α n) (fresh : s.counters.iterations = 0) :
    ∃ k trace t closing, Journey config linear f derivative s k trace t ∧
      Closes config linear derivative k t closing ∧
      (loop config linear f derivative).run config.maxIterations s = closing.after trace := by
  obtain ⟨k, trace, t, r, leads, ends, eq⟩ :=
    (loop config linear f derivative).run_ends config.maxIterations s
  have journey := Journey.of_leads leads fresh
  have number : t.counters.iterations = k := by rw [journey.iterations, fresh, Nat.zero_add]
  rw [eq]
  cases ends with
  | finished _ good => exact ⟨k, trace, t, _, journey, .converged, rfl⟩
  | exhausted bad => exact ⟨_, trace, t, _, journey, .exhausted rfl, rfl⟩
  | failed lt bad failed =>
      rw [loop_step] at failed ⊢
      rcases advance_cases config linear f derivative t with
        ⟨u, slopes, trials, step, m, iteration, same | same⟩ | ⟨e', error, closes⟩
      · rw [same] at failed
        cases failed
      · rw [same] at failed ⊢
        cases failed
        have one_more : u.counters.iterations = k + 1 := by rw [iteration.counters, number]
        rw [one_more]
        refine ⟨k + 1, _, u, _, journey.next iteration, .diverged (Nat.succ_pos k), ?_⟩
        simp [Run.after]
      · cases failed.symm.trans error
        rw [number] at closes
        exact ⟨k, trace, t, _, journey, closes, rfl⟩

/-- A run from a guess that has made `k` iterations, which led to `t` and left `trace`, and then
ended with `closing`. -/
structure Books (config : NewtonConfig α) (linear : LinearSolver α n) (f : VectorFunction α n)
    (derivative : Derivative α n) (guess : Vector α n) (k : Nat)
    (trace : List (SystemEntry α n (Event α))) (t : State α n)
    (closing : Course α n (Solution (Vector α n))) : Prop where
  course_eq : solve config linear f derivative guess =
    closing.after (.residual ⟨guess, f 1 guess (Vector.replicate n 0.0)⟩ :: trace)
  journey : Journey config linear f derivative
    (.start config guess (f 1 guess (Vector.replicate n 0.0)).contents) k trace t
  closes : Closes config linear derivative k t closing
  iterations : ∀ r, closing.outcome = .ok r → r.counters.iterations = k
  jacobians : ∀ r, closing.outcome = .ok r →
    r.counters.jacobianEvaluations = k * derivative.jacobians
  functions : ∀ r, closing.outcome = .ok r → r.counters.functionEvaluations =
    (residualPoints (solve config linear f derivative guess).trace).length
  /-- One call at the guess, and in each iteration those for the matrix, one for the step, and one
  for each halving of the step. -/
  bounds : ∀ r, closing.outcome = .ok r →
    1 + k * (derivative.residuals + 1) ≤ r.counters.functionEvaluations ∧
      r.counters.functionEvaluations ≤
        1 + k * (derivative.residuals + 1) + k * config.maxBacktracks ∧
      (config.lineSearch = false →
        r.counters.functionEvaluations = 1 + k * (derivative.residuals + 1))

/-- Only the solution of a run has counters. -/
theorem Closes.counters_of_ok {k : Nat} {t : State α n}
    {closing : Course α n (Solution (Vector α n))} {r : Solution (Vector α n)}
    (h : Closes config linear derivative k t closing) (ok : closing.outcome = .ok r) :
    r.counters = t.counters ∧ residualPoints closing.trace = [] := by
  cases h with
  | converged =>
      cases ok
      exact ⟨rfl, rfl⟩
  | _ => cases ok

theorem Books.of_journey {guess : Vector α n} {k : Nat}
    {trace : List (SystemEntry α n (Event α))} {t : State α n}
    {closing : Course α n (Solution (Vector α n))}
    (course_eq : solve config linear f derivative guess =
      closing.after (.residual ⟨guess, f 1 guess (Vector.replicate n 0.0)⟩ :: trace))
    (journey : Journey config linear f derivative
      (.start config guess (f 1 guess (Vector.replicate n 0.0)).contents) k trace t)
    (closes : Closes config linear derivative k t closing) :
    Books config linear f derivative guess k trace t closing := by
  have functions := journey.functions
  have bounds := journey.bounds
  refine ⟨course_eq, journey, closes, fun r ok => ?_, fun r ok => ?_, fun r ok => ?_,
    fun r ok => ?_⟩
  all_goals obtain ⟨counters, silent⟩ := closes.counters_of_ok ok
  all_goals rw [counters]
  · exact journey.iterations.trans (Nat.zero_add k)
  · exact journey.jacobians.trans (Nat.zero_add _)
  · rw [course_eq, Run.after_trace, residualPoints_append, silent, List.append_nil, functions,
      Nat.add_comm]
    rfl
  · rw [functions]
    refine ⟨Nat.add_le_add_left bounds.1 1, ?_, fun off => ?_⟩
    · rw [Nat.add_assoc]
      exact Nat.add_le_add_left bounds.2.1 1
    · exact congrArg (1 + ·) (bounds.2.2 off)

/-- A run that has no finite residual at its guess. -/
theorem Books.unstarted {guess : Vector α n} (fault : Fault α)
    (course_eq : solve config linear f derivative guess =
      ⟨[.residual ⟨guess, f 1 guess (Vector.replicate n 0.0)⟩], .error (.evaluation fault)⟩) :
    Books config linear f derivative guess 0 []
      (.start config guess (f 1 guess (Vector.replicate n 0.0)).contents)
      ⟨[], .error (.evaluation fault)⟩ :=
  .of_journey course_eq .here (.unstarted rfl)

theorem solve_books (config : NewtonConfig α) (linear : LinearSolver α n) (f : VectorFunction α n)
    (derivative : Derivative α n) (guess : Vector α n) (nonempty : n ≠ 0)
    (valid : config.validate = .ok ()) :
    ∃ k trace t closing, Books config linear f derivative guess k trace t closing := by
  cases called : (f.call 1 guess (Vector.replicate n 0.0) : Course α n (Vector α n)).outcome with
  | error e =>
      obtain ⟨fault, rfl⟩ := Written.outcome_error called
      refine ⟨0, [], _, _, .unstarted fault ?_⟩
      rw [solve, if_neg nonempty, valid]
      exact Run.bind_error called _
  | ok fx =>
      have first := VectorFunction.call_ok_iff.mp called
      by_cases finite : fx.all isFinite = true
      · obtain ⟨k, trace, t, closing, journey, closes, eq⟩ := run_journey config linear f
          derivative (.start config guess fx) rfl
        refine ⟨k, trace, t, closing, .of_journey ?_ ?_ closes⟩
        · rw [solve_eq_run nonempty valid first finite, eq, Run.after_after, first]
          rfl
        · rw [first]
          exact journey
      · refine ⟨0, [], _, _, .unstarted .nonFiniteGuess ?_⟩
        rw [solve, if_neg nonempty, valid]
        simp only [Run.bind_eq]
        rw [Run.bind_of_ok called, if_pos finite]
        rfl

/-- An event that ends a run. -/
def Event.ends : Event α → Bool
  | step _ _ _ => false
  | _ => true

theorem Event.record_level {α : Type} [FloatingPoint α] (event : Event α) :
    (Log.Loggable.record event).level = if event.ends then .debug else .trace := by
  cases event with
  | step => rfl
  | converged => rfl
  | singular => rfl
  | diverged => rfl
  | limit => rfl

/-- The calls, the counters and the events of every run that accepts its input agree, whatever comes
of it.  Iterations are traced, and what a run comes to is for debugging. -/
theorem solve_keeps_books {α : Type} [FloatingPoint α] {n : Nat} (config : NewtonConfig α)
    (linear : LinearSolver α n) (f : VectorFunction α n) (derivative : Derivative α n)
    (guess : Vector α n) (nonempty : n ≠ 0) (valid : config.validate = .ok ()) :
    (∃ k trace t closing, Books config linear f derivative guess k trace t closing) ∧
      ∀ event : Event α,
        (Log.Loggable.record event).level = if event.ends then .debug else .trace :=
  ⟨solve_books config linear f derivative guess nonempty valid, Event.record_level⟩

/-- Where a line meets a circle, in doubles, with two columns to estimate in each iteration. -/
theorem solve_keeps_books_circle :
    let f : VectorFunction Float 2 := fun _ x _ =>
      ⟨#v[x.get 0 * x.get 0 + x.get 1 * x.get 1 - 4.0, x.get 0 - x.get 1], none⟩
    let config : NewtonConfig Float :=
      { NewtonConfig.standard with tolerance := 0.1, lineSearch := true }
    (∃ k trace t closing,
      Books config (.lu .standard) f .differences #v[1.0, 2.0] k trace t closing) ∧
    ((solve config (.lu .standard) f .differences #v[1.0, 2.0]).outcome.map
      (·.counters)).toOption = some ⟨2, 7, 0⟩ := by
  intro f config
  obtain ⟨books, -⟩ := solve_keeps_books config (.lu .standard) f .differences #v[1.0, 2.0]
    (by decide) (by decide +kernel)
  exact ⟨books, by decide +kernel⟩

end Nonlinear.Newton
