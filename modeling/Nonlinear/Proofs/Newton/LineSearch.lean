import Nonlinear.Proofs.Newton.Bookkeeping
import Nonlinear.Proofs.Scalar.Unit

/-! # Line search where it is not needed

A search along a step ends with its first trial, the full step, if that reduces the norm enough, or
if there is no line search at all.  So where every full step of a run reduces the norm enough, the
run with line search is the same.
-/

namespace Nonlinear

open Scalar

section Config

variable {α : Type}

/-- With line search, at most so many halvings, and no smaller a damping factor. -/
def NewtonConfig.searching (config : NewtonConfig α) (maxBacktracks : Nat) (minDamping : α) :
    NewtonConfig α :=
  { config with lineSearch := true, maxBacktracks, minDamping }

def NewtonConfig.plain (config : NewtonConfig α) : NewtonConfig α :=
  { config with lineSearch := false }

end Config

namespace Newton

open SystemEntry (events Asks request?)

section Norms

variable {α : Type} {n : Nat}

def Event.stepNorm? : Event α → Option α
  | .step _ residual _ => some residual
  | _ => none

/-- The norms that the completed steps of a run have led to, in order. -/
def stepNorms (trace : List (SystemEntry α n (Event α))) : List α :=
  (events trace).filterMap Event.stepNorm?

@[simp]
theorem stepNorms_append (trace more : List (SystemEntry α n (Event α))) :
    stepNorms (trace ++ more) = stepNorms trace ++ stepNorms more := by
  simp [stepNorms, events]

theorem stepNorms_of_asks {trace : List (SystemEntry α n (Event α))}
    {requests : List (Request α n)} (asks : Asks trace requests) : stepNorms trace = [] := by
  have quiet : events trace = [] := by
    refine List.filterMap_eq_nil_iff.mpr fun entry mem => ?_
    have asked : request? entry ∈ requests.map some := asks ▸ List.mem_map_of_mem mem
    cases entry with
    | residual | jacobian | linear => rfl
    | event e =>
        obtain ⟨_, -, none⟩ := List.mem_map.mp asked
        cases none
  rw [stepNorms, quiet, List.filterMap_nil]

end Norms

variable {α : Type} [Scalar α] {n : Nat} {config : NewtonConfig α} {linear : LinearSolver α n}
  {f : VectorFunction α n} {derivative : Derivative α n}

theorem Iteration.stepNorms_entries {s t : State α n}
    {slopes trials : List (SystemEntry α n (Event α))} {step : Array α} {m : Nat}
    (h : Iteration config linear f derivative s t slopes trials step m) (number : Nat) :
    stepNorms (entries s t slopes trials step m number) = [t.residual] := by
  rw [entries, stepNorms_append, stepNorms_of_asks h.slopes, List.nil_append]
  show stepNorms (trials ++ _) = _
  rw [stepNorms_append, stepNorms_of_asks h.trials]
  rfl

/-- An iteration that goes on has completed one step. -/
theorem stepNorms_advance {s t : State α n}
    (ok : (advance config linear f derivative s).outcome = .ok t) :
    stepNorms (advance config linear f derivative s).trace = [t.residual] := by
  rcases advance_cases config linear f derivative s with
    ⟨u, _, _, _, _, iteration, same | same⟩ | ⟨e, error, -⟩
  · rw [same] at ok ⊢
    cases ok
    exact iteration.stepNorms_entries _
  · rw [same] at ok
    cases ok
  · rw [ok] at error
    cases error

/-- The norm is finite and has come down as much as is asked of a full step. -/
def Reduces (config : NewtonConfig α) (before norm : α) : Prop :=
  isFinite norm = true ∧ norm ≤ (1.0 - config.sufficientDecrease) * before

instance (config : NewtonConfig α) : DecidableRel (Reduces config) := fun _ _ => by
  unfold Reduces; infer_instance

theorem stops_of_reduces [UnitScalar α] {residual norm : α} (h : Reduces config residual norm) :
    stops config residual 1.0 norm := by
  refine .inr (.inl ⟨h.1, ?_⟩)
  rw [UnitScalar.mul_one]
  exact h.2

theorem stops_plain (residual damping norm : α) : stops config.plain residual damping norm :=
  .inl rfl

/-- If the full step ends the search, then no other is tried. -/
theorem takeStep_of_stops {ε : Type} {x : Vector α n} {step : Array α} {residual : α}
    {trial : Trial α n} {counters : Counters}
    (stop : ∀ next, (trial.evaluate f (counters.functionEvaluations + 1) x step 1.0 :
      SystemRun α n ε (Trial α n)).outcome = .ok next →
        stops config residual 1.0 (config.norm.norm next.fx)) :
    (takeStep config f x step residual trial counters : SystemRun α n ε (Accepted α n)) =
      (trial.evaluate f (counters.functionEvaluations + 1) x step 1.0).bind fun next =>
        ⟨[], .ok ⟨1.0, next, counters.countFunction⟩⟩ := by
  unfold takeStep
  cases config.maxBacktracks with
  | zero => rfl
  | succ remaining =>
      refine Run.bind_congr fun next evaluated => ?_
      rw [if_pos (stop next evaluated)]
      rfl

/-- Without line search a full step that can be evaluated is completed. -/
theorem stepNorms_plain {s : State α n} {a : DenseMatrix α n n} {counters : Counters}
    {step : Array α} {next : Trial α n}
    (derived : (derivative.evaluate f s).outcome = .ok (a, counters))
    (solved : linear (s.counters.iterations + 1) a (s.current.fx.map (-·)) = some step)
    (evaluated : (s.spare.evaluate f (counters.functionEvaluations + 1) s.current.x step 1.0 :
      Course α n (Trial α n)).outcome = .ok next) :
    stepNorms (advance config.plain linear f derivative s).trace = [config.norm.norm next.fx] := by
  obtain ⟨_, -, slopes, -⟩ := derivative.evaluate_asks f s
  have tried : stepNorms (s.spare.evaluate f (counters.functionEvaluations + 1) s.current.x step
      1.0 : Course α n (Trial α n)).trace = [] := by
    rw [Trial.evaluate_trace]
    rfl
  rw [advance_eq, Run.bind_of_ok derived, solveFor_some solved, Run.bind_of_ok rfl,
    takeStep_of_stops fun _ _ => stops_plain _ _ _, Run.bind_assoc, Run.bind_of_ok evaluated]
  have judged : stepNorms (judge config.plain s a
      ⟨1.0, next, counters.countFunction⟩).trace = [config.norm.norm next.fx] := by
    rcases judge_run config.plain s a ⟨1.0, next, counters.countFunction⟩ with same | same
    · rw [same]
      rfl
    · rw [same]
      rfl
  simp only [Run.after_trace, stepNorms_append, stepNorms_of_asks slopes, tried, List.nil_append]
  exact judged

variable [UnitScalar α] {maxBacktracks : Nat} {minDamping : α}

/-- An iteration with line search is the one without, if the step that it completes reduces the norm
enough. -/
theorem advance_searching (s : State α n)
    (enough : ∀ norm ∈ (stepNorms (advance config.plain linear f derivative s).trace).head?,
      Reduces config s.residual norm) :
    advance (config.searching maxBacktracks minDamping) linear f derivative s =
      advance config.plain linear f derivative s := by
  rw [advance_eq, advance_eq]
  refine Run.bind_congr fun answer derived => ?_
  cases solved : linear (s.counters.iterations + 1) answer.1 (s.current.fx.map (-·)) with
  | none => rw [solveFor_none solved, Run.bind_error rfl, Run.bind_error rfl]
  | some step =>
      rw [solveFor_some solved]
      have stop (next : Trial α n) (evaluated : (s.spare.evaluate f
          (answer.2.functionEvaluations + 1) s.current.x step 1.0 :
            Course α n (Trial α n)).outcome = .ok next) :
          stops (config.searching maxBacktracks minDamping) s.residual 1.0
            (config.norm.norm next.fx) := by
        rw [stepNorms_plain derived solved evaluated] at enough
        exact stops_of_reduces (enough _ rfl)
      refine Run.bind_congr fun step' taken => ?_
      cases taken
      rw [takeStep_of_stops stop, takeStep_of_stops fun _ _ => stops_plain _ _ _]
      rfl

/-- By induction on the budget: the norms that are left to come are a chain from the present one. -/
theorem run_searching (budget : Nat) (s : State α n)
    (easy : (s.residual :: stepNorms
      ((loop config.plain linear f derivative).run budget s).trace).IsChain (Reduces config)) :
    (loop (config.searching maxBacktracks minDamping) linear f derivative).run budget s =
      (loop config.plain linear f derivative).run budget s := by
  induction budget generalizing s with
  | zero => rfl
  | succ budget ih =>
      by_cases small : s.residual < config.tolerance
      · rw [Loop.run_of_done small, Loop.run_of_done small]
        rfl
      rw [Loop.run_succ small] at easy ⊢
      rw [Loop.run_succ small, loop_step, loop_step]
      rw [loop_step] at easy
      have steps : advance (config.searching maxBacktracks minDamping) linear f derivative s =
          advance config.plain linear f derivative s := by
        refine advance_searching s fun norm first => ?_
        refine (List.isChain_cons.mp easy).1 norm ?_
        obtain ⟨more, same⟩ := Run.bind_trace_prefix (advance config.plain linear f derivative s)
          ((loop config.plain linear f derivative).run budget)
        rw [← same, stepNorms_append, List.head?_append, Option.mem_def.mp first]
        rfl
      rw [steps]
      refine Run.bind_congr fun t ok => ih t ?_
      rw [Run.bind_of_ok ok, Run.after_trace, stepNorms_append, stepNorms_advance ok] at easy
      exact (List.isChain_cons_cons.mp easy).2

/-- Where every step of a run without line search leads to a finite norm that has come down enough,
the run with line search does the same, whatever its limits are. -/
theorem solve_searching (config : NewtonConfig α) (maxBacktracks : Nat) (minDamping : α)
    (linear : LinearSolver α n) (f : VectorFunction α n) (derivative : Derivative α n)
    (guess : Vector α n) (valid : config.validate = .ok ())
    (valid' : (config.searching maxBacktracks minDamping).validate = .ok ())
    (easy : (config.norm.norm (f 1 guess (Vector.replicate n 0.0)).contents ::
      stepNorms (solve config.plain linear f derivative guess).trace).IsChain (Reduces config)) :
    solve (config.searching maxBacktracks minDamping) linear f derivative guess =
      solve config.plain linear f derivative guess := by
  by_cases started : n ≠ 0 ∧
    ∃ fx, f 1 guess (Vector.replicate n 0.0) = ⟨fx, none⟩ ∧ fx.all isFinite = true
  · obtain ⟨nonempty, fx, first, finite⟩ := started
    have plain : config.plain.validate = .ok () := valid
    rw [solve_eq_run nonempty plain first finite] at easy ⊢
    rw [solve_eq_run nonempty valid' first finite]
    rw [first] at easy
    exact congrArg _ (run_searching config.maxIterations _ easy)
  · exact solve_unstarted valid' valid fun nonempty fx first finite =>
      started ⟨nonempty, fx, first, finite⟩

/-- The square root of two, in doubles and from one.  Four full steps find it, and neither halvings
nor a large damping factor are of use to them. -/
theorem solve_searching_sqrt_two :
    let f : VectorFunction Float 1 := fun _ x _ => ⟨x.map fun t => t * t - 2.0, none⟩
    let slope : Derivative Float 1 :=
      .analytic fun _ x _ => ⟨.ofFn fun _ _ => 2.0 * x.get 0, none⟩
    let config : NewtonConfig Float := .standard
    solve (config.searching 3 0.25) .diagonal f slope #v[1.0] =
        solve config.plain .diagonal f slope #v[1.0] ∧
      ((solve (config.searching 3 0.25) .diagonal f slope #v[1.0]).outcome.map
        (·.counters)).toOption = some ⟨4, 5, 4⟩ := by
  intro f slope config
  have easy : (config.norm.norm (f 1 #v[1.0] (Vector.replicate 1 0.0)).contents ::
      stepNorms (solve config.plain .diagonal f slope #v[1.0]).trace).IsChain
        (Reduces config) := by decide +kernel
  exact ⟨solve_searching config 3 0.25 .diagonal f slope #v[1.0] (by decide +kernel)
    (by decide +kernel) easy, by decide +kernel⟩

end Newton

end Nonlinear
