import Nonlinear.Proofs.Newton.Course

/-! # What an iteration of Newton's method asks for

For its matrix an iteration asks for the Jacobian once, or for the residual at one moved point for
each column; for its step it asks for the residual at one point for each damping factor that is
tried.  Here are these requests in their order, and what each of them adds to the counters.
-/

namespace Nonlinear

open Scalar

variable {α ε : Type} {n : Nat}

/-- A point at which a function of a system is called. -/
inductive Request (α : Type) (n : Nat) where
  | residual (x : Vector α n)
  | jacobian (x : Vector α n)

def Request.isResidual : Request α n → Bool
  | residual _ => true
  | jacobian _ => false

theorem Request.countP_residuals {ι : Type} (point : ι → Vector α n) (is : List ι) :
    (is.map fun i => Request.residual (point i)).countP isResidual = is.length := by
  rw [List.countP_map]
  exact List.countP_eq_length.mpr fun _ _ => rfl

namespace SystemEntry

def request? : SystemEntry α n ε → Option (Request α n)
  | residual call => some (.residual call.point)
  | jacobian point _ => some (.jacobian point)
  | linear _ _ _ => none
  | event _ => none

/-- The trace consists of calls of the functions, which make these requests. -/
def Asks (trace : List (SystemEntry α n ε)) (requests : List (Request α n)) : Prop :=
  trace.map request? = requests.map some

theorem asks_nil : Asks ([] : List (SystemEntry α n ε)) [] := rfl

theorem Asks.append {trace more : List (SystemEntry α n ε)} {requests others : List (Request α n)}
    (h : Asks trace requests) (h' : Asks more others) :
    Asks (trace ++ more) (requests ++ others) := by
  rw [Asks, List.map_append, List.map_append, h, h']

@[simp]
theorem residualPoints_append (trace more : List (SystemEntry α n ε)) :
    residualPoints (trace ++ more) = residualPoints trace ++ residualPoints more :=
  List.filterMap_append

/-- The calls of the residual are the requests for it. -/
theorem Asks.residuals {trace : List (SystemEntry α n ε)} {requests : List (Request α n)}
    (h : Asks trace requests) :
    (residualPoints trace).length = requests.countP Request.isResidual := by
  induction trace generalizing requests with
  | nil =>
      cases requests with
      | nil => rfl
      | cons => cases h
  | cons entry trace ih =>
      cases requests with
      | nil => cases h
      | cons request requests =>
          obtain ⟨first, rest⟩ := List.cons_eq_cons.mp h
          have length := ih rest
          cases entry with
          | residual call =>
              cases first
              rw [List.countP_cons_of_pos rfl, ← length]
              rfl
          | jacobian point answer =>
              cases first
              rw [List.countP_cons_of_neg Bool.false_ne_true, ← length]
              rfl
          | linear => cases first
          | event => cases first

end SystemEntry

open SystemEntry

variable [Scalar α]

/-- The points at which these columns of a Jacobian are estimated. -/
def DifferenceStep.requests (step : DifferenceStep α) (x : Vector α n) (js : List (Fin n)) :
    List (Request α n) :=
  js.map fun (j : Fin n) => .residual (x.set j (x.get j + step.size (x.get j)) j.isLt)

theorem DifferenceSweep.columns_asks (f : VectorFunction α n) (step : DifferenceStep α)
    (x fx : Vector α n) (js : List (Fin n)) (k : Nat) (buffer : Vector α n)
    (jacobian : DenseMatrix α n n) (counters : Counters) :
    let sweep := columns f step x fx js k buffer jacobian counters
    ∃ requests, requests <+: step.requests x js ∧
      Asks (sweep.calls.map fun call => (.residual call : SystemEntry α n ε)) requests ∧
      (sweep.outcome = .ok () → requests = step.requests x js ∧
        sweep.counters =
          { counters with functionEvaluations := counters.functionEvaluations + js.length }) := by
  have first (j : Fin n) (js : List (Fin n)) :
      step.requests x [j] <+: step.requests x (j :: js) :=
    List.prefix_append _ (step.requests x js)
  have here (j : Fin n) (answer : Written (Vector α n)) :
      Asks [(.residual ⟨step.moved x j, answer⟩ : SystemEntry α n ε)] (step.requests x [j]) := rfl
  induction js generalizing k buffer jacobian counters with
  | nil => exact ⟨[], List.nil_prefix, asks_nil, fun _ => ⟨rfl, rfl⟩⟩
  | cons j js ih =>
      dsimp only
      rcases columns_cons f step x fx j js k buffer jacobian counters with
        ⟨-, eq⟩ | ⟨-, ⟨_, -, eq⟩ | ⟨-, _, rfl, eq⟩⟩
      · rw [eq]
        exact ⟨[], List.nil_prefix, asks_nil, fun ok => by cases ok⟩
      · rw [eq]
        exact ⟨_, first j js, here j _, fun ok => by cases ok⟩
      · rw [eq]
        obtain ⟨requests, part, asks, whole⟩ := ih _ _ _ counters.countFunction
        refine ⟨step.requests x [j] ++ requests, ?_, (here j _).append asks, fun ok => ?_⟩
        · exact (List.prefix_append_right_inj (step.requests x [j])).mpr part
        · obtain ⟨all, counted⟩ := whole ok
          refine ⟨by rw [all]; rfl, counted.trans ?_⟩
          rw [List.length_cons, Nat.add_comm js.length, ← Nat.add_assoc]
          rfl

namespace Newton

/-- What is asked for to fill the matrix at `x`. -/
def Derivative.requests : Derivative α n → Vector α n → List (Request α n)
  | analytic _, x => [.jacobian x]
  | differences, x => DifferenceStep.scaled.requests x (List.finRange n)

/-- How many calls of the residual a matrix takes. -/
def Derivative.residuals : Derivative α n → Nat
  | analytic _ => 0
  | differences => n

/-- How many calls of the Jacobian a matrix takes. -/
def Derivative.jacobians : Derivative α n → Nat
  | analytic _ => 1
  | differences => 0

theorem Derivative.countP_requests (derivative : Derivative α n) (x : Vector α n) :
    (derivative.requests x).countP Request.isResidual = derivative.residuals := by
  cases derivative with
  | analytic jacobian => rfl
  | differences =>
      rw [requests, DifferenceStep.requests, Request.countP_residuals, List.length_finRange]
      rfl

/-- The matrix takes all of its requests, unless one of them fails. -/
theorem Derivative.evaluate_asks (derivative : Derivative α n) (f : VectorFunction α n)
    (s : State α n) : ∃ requests, requests <+: derivative.requests s.current.x ∧
      Asks (derivative.evaluate f s).trace requests ∧
      ∀ a counters, (derivative.evaluate f s).outcome = .ok (a, counters) →
        requests = derivative.requests s.current.x ∧
        counters =
          { s.counters with
            functionEvaluations := s.counters.functionEvaluations + derivative.residuals
            jacobianEvaluations := s.counters.jacobianEvaluations + derivative.jacobians } := by
  cases derivative with
  | analytic jacobian =>
      refine ⟨_, List.prefix_rfl, ?_, fun a counters ok => ?_⟩
      · cases called : (jacobian.call (s.counters.jacobianEvaluations + 1) s.current.x
            (s.matrix.fill 0.0) : Course α n (DenseMatrix α n n)).outcome with
        | error e =>
            rw [evaluate, Run.bind_eq, Run.bind_error called]
            rfl
        | ok a =>
            rw [evaluate, Run.bind_eq, Run.bind_of_ok called]
            rfl
      · obtain ⟨b, -, -, same⟩ := Run.ok_of_bind ok
        cases same
        exact ⟨rfl, rfl⟩
  | differences =>
      obtain ⟨requests, part, asks, whole⟩ := DifferenceSweep.columns_asks (ε := Event α)
        (f.after s.counters.functionEvaluations) .scaled s.current.x s.current.fx
        (List.finRange n) 1 (Vector.replicate n 0.0) (s.matrix.fill 0.0) s.counters
      refine ⟨requests, part, asks, fun a counters ok => ?_⟩
      obtain ⟨outcome, -, same⟩ := DifferenceSweep.toRun_ok ok
      obtain ⟨all, counted⟩ := whole outcome
      refine ⟨all, same.symm.trans (counted.trans ?_)⟩
      rw [List.length_finRange]
      rfl

/-- The damping factor after `i` halvings. -/
def halved : (i : Nat) → α
  | 0 => 1.0
  | i + 1 => halved i * 0.5

/-- What is asked for in trying a step with some damping factors in a row. -/
def Trial.requests (trial : Trial α n) (x : Vector α n) (step : Array α) (first count : Nat) :
    List (Request α n) :=
  (List.range' first count).map fun i => .residual (trial.target x step (halved i))

/-- A trial can be made from the trial before. -/
theorem Trial.target_target (trial : Trial α n) (x fx : Vector α n) (step : Array α) (d d' : α) :
    (⟨trial.target x step d, fx⟩ : Trial α n).target x step d' = trial.target x step d' := by
  apply Vector.ext
  intro i lt
  unfold target
  rw [Vector.getElem_ofFn, Vector.getElem_ofFn]
  split
  · rfl
  · rename_i beyond
    show (Vector.ofFn fun i => _)[i] = _
    rw [Vector.getElem_ofFn, dif_neg beyond]

variable {config : NewtonConfig α} {f : VectorFunction α n} {x : Vector α n} {step : Array α}
  {residual : α}

theorem Trial.evaluate_trace (trial : Trial α n) (k : Nat) (damping : α) :
    (trial.evaluate f k x step damping : SystemRun α n ε (Trial α n)).trace =
      [.residual ⟨trial.target x step damping, f k (trial.target x step damping) trial.fx⟩] := by
  cases called : (f.call k (trial.target x step damping) trial.fx :
      SystemRun α n ε (Vector α n)).outcome with
  | error e =>
      rw [evaluate, Run.bind_eq, Run.bind_error called]
      rfl
  | ok y =>
      rw [evaluate, Run.bind_eq, Run.bind_of_ok called]
      rfl

theorem Trial.evaluate_point {trial next : Trial α n} {k : Nat} {damping : α}
    (h : (trial.evaluate f k x step damping : SystemRun α n ε (Trial α n)).outcome = .ok next) :
    next.x = trial.target x step damping := by
  obtain ⟨y, -, -, same⟩ := Run.ok_of_bind h
  cases same
  rfl

theorem Trial.evaluate_error {trial : Trial α n} {k : Nat} {damping : α} {e : Failure α}
    (h : (trial.evaluate f k x step damping : SystemRun α n ε (Trial α n)).outcome = .error e) :
    ∃ fault, e = .evaluation fault := by
  cases called : (f.call k (trial.target x step damping) trial.fx :
      SystemRun α n ε (Vector α n)).outcome with
  | error e' =>
      rw [evaluate, Run.bind_eq, Run.bind_error called] at h
      cases h
      exact Written.outcome_error called
  | ok y =>
      rw [evaluate, Run.bind_eq, Run.bind_of_ok called] at h
      cases h

/-- A search along a step makes its trials in order.  With `m` halvings it has made `m + 1` of
them, and if none failed it accepts the last. -/
structure Tries (config : NewtonConfig α) (start : Trial α n) (x : Vector α n) (step : Array α)
    (first remaining : Nat) (counters : Counters)
    (course : SystemRun α n ε (Accepted α n)) (m : Nat) : Prop where
  few : m ≤ remaining
  without : config.lineSearch = false → m = 0
  asks : Asks course.trace (start.requests x step first (m + 1))
  accepted : ∀ accepted, course.outcome = .ok accepted →
    accepted.damping = halved (first + m) ∧
      accepted.trial.x = start.target x step (halved (first + m)) ∧
      accepted.counters =
        { counters with functionEvaluations := counters.functionEvaluations + (m + 1) }
  fails : ∀ e, course.outcome = .error e → ∃ fault, e = .evaluation fault

namespace Tries

variable {start trial : Trial α n} {first remaining m : Nat} {counters : Counters}

theorem asks_one (same : ∀ d, trial.target x step d = start.target x step d) (k : Nat) :
    Asks (trial.evaluate f k x step (halved first) : SystemRun α n ε (Trial α n)).trace
      (start.requests x step first 1) := by
  rw [Trial.evaluate_trace, same]
  rfl

theorem failed (same : ∀ d, trial.target x step d = start.target x step d) {k : Nat}
    {e : Failure α}
    (fails : (trial.evaluate f k x step (halved first) :
      SystemRun α n ε (Trial α n)).outcome = .error e) :
    Tries config start x step first remaining counters
      ⟨(trial.evaluate f k x step (halved first) : SystemRun α n ε (Trial α n)).trace, .error e⟩
      0 where
  few := Nat.zero_le _
  without _ := rfl
  asks := asks_one same k
  accepted _ ok := by cases ok
  fails e' error := by
    cases error
    exact Trial.evaluate_error fails

theorem last (same : ∀ d, trial.target x step d = start.target x step d) {k : Nat}
    {next : Trial α n}
    (ok : (trial.evaluate f k x step (halved first) :
      SystemRun α n ε (Trial α n)).outcome = .ok next) :
    Tries config start x step first remaining counters
      ((pure ⟨halved first, next, counters.countFunction⟩ : SystemRun α n ε _).after
        (trial.evaluate f k x step (halved first) : SystemRun α n ε (Trial α n)).trace) 0 where
  few := Nat.zero_le _
  without _ := rfl
  asks := (asks_one same k).append asks_nil
  accepted accepted answer := by
    cases answer
    exact ⟨rfl, (Trial.evaluate_point ok).trans (same _), rfl⟩
  fails _ error := by cases error

/-- A trial before the others. -/
theorem before {course : SystemRun α n ε (Accepted α n)} {trace : List (SystemEntry α n ε)}
    (searching : config.lineSearch = true) (asks : Asks trace (start.requests x step first 1))
    (h : Tries config start x step (first + 1) remaining counters.countFunction course m) :
    Tries config start x step first (remaining + 1) counters (course.after trace) (m + 1) where
  few := Nat.succ_le_succ h.few
  without off := by
    rw [off] at searching
    cases searching
  asks := asks.append h.asks
  accepted accepted ok := by
    obtain ⟨damping, point, counted⟩ := h.accepted accepted ok
    rw [Nat.add_right_comm] at damping point
    refine ⟨damping, point, counted.trans ?_⟩
    rw [Counters.countFunction, Nat.add_right_comm, Nat.add_assoc]
  fails := h.fails

end Tries

/-- By induction on the halvings that are left.  All trials have the targets of the first one. -/
theorem backtrack_tries {start : Trial α n} (remaining first : Nat) {trial : Trial α n}
    (same : ∀ d, trial.target x step d = start.target x step d) (counters : Counters) :
    ∃ m, Tries config start x step first remaining counters
      (backtrack config f x step residual remaining (halved first) trial counters :
        SystemRun α n ε (Accepted α n)) m := by
  induction remaining generalizing first trial counters with
  | zero =>
      rw [backtrack, Run.bind_eq]
      cases evaluated : (trial.evaluate f (counters.functionEvaluations + 1) x step
          (halved first) : SystemRun α n ε (Trial α n)).outcome with
      | error e =>
          rw [Run.bind_error evaluated]
          exact ⟨0, .failed same evaluated⟩
      | ok next =>
          rw [Run.bind_of_ok evaluated]
          exact ⟨0, .last same evaluated⟩
  | succ remaining ih =>
      rw [backtrack, Run.bind_eq]
      cases evaluated : (trial.evaluate f (counters.functionEvaluations + 1) x step
          (halved first) : SystemRun α n ε (Trial α n)).outcome with
      | error e =>
          rw [Run.bind_error evaluated]
          exact ⟨0, .failed same evaluated⟩
      | ok next =>
          rw [Run.bind_of_ok evaluated]
          dsimp only
          by_cases stop : stops config residual (halved first) (config.norm.norm next.fx)
          · rw [if_pos stop]
            exact ⟨0, .last same evaluated⟩
          · rw [if_neg stop]
            have searching : config.lineSearch = true := by
              rw [← Bool.not_eq_false]
              exact fun off => stop (.inl off)
            have same' (d : α) : next.target x step d = start.target x step d := by
              rw [← same d, ← trial.target_target x next.fx step (halved first) d,
                ← Trial.evaluate_point evaluated]
            obtain ⟨m, tries⟩ := ih (first + 1) same' counters.countFunction
            exact ⟨m + 1, .before searching (Tries.asks_one same _) tries⟩

theorem takeStep_tries (config : NewtonConfig α) (f : VectorFunction α n) (x : Vector α n)
    (step : Array α) (residual : α) (trial : Trial α n) (counters : Counters) :
    ∃ m, Tries config trial x step 0 config.maxBacktracks counters
      (takeStep config f x step residual trial counters : SystemRun α n ε (Accepted α n)) m :=
  backtrack_tries config.maxBacktracks 0 (fun _ => rfl) counters

end Newton

end Nonlinear
