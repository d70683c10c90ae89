import Mathlib
import Nonlinear.Log.Events
import Nonlinear.Proofs.ForwardDifference

/-! # The calls, the counters and the events of a Jacobian check

A check asks for the residual, for the Jacobian, and for the residual once more for each coordinate,
which is raised by the perturbation.  The first answer that is of no use is the last, and then
nothing is reported.  A report counts what was asked for.  How much of it is logged is a matter of
verbosity, and the report is not.
-/

namespace Nonlinear

open Scalar SystemEntry

variable {α : Type} {n : Nat}

/-- Pieces of one length follow one another. -/
theorem getElem?_flatMap_of_length {β γ : Type} {f : β → List γ} {m : Nat}
    (same : ∀ b, (f b).length = m) (l : List β) (a : Nat) {k : Nat} (h : k < m) :
    (l.flatMap f)[a * m + k]? = l[a]?.bind fun b => (f b)[k]? := by
  induction l generalizing a with
  | nil => rfl
  | cons b l ih =>
      rw [List.flatMap_cons]
      cases a with
      | zero =>
          rw [Nat.zero_mul, Nat.zero_add, List.getElem?_append_left (h.trans_eq (same b).symm)]
          rfl
      | succ a =>
          have later : (a + 1) * m + k = (f b).length + (a * m + k) := by
            rw [same]
            ring
          rw [later, List.getElem?_append_right (Nat.le_add_right _ _), Nat.add_sub_cancel_left, ih]
          rfl

namespace Discrepancy

theorem length_positions (n : Nat) : (positions n).length = n * n := by
  simp [positions, List.length_flatMap]

/-- Column after column, so that an entry is preceded by `n` others for each column before. -/
theorem getElem?_positions (i j : Fin n) : (positions n)[j * n + i]? = some (i, j) := by
  rw [positions, getElem?_flatMap_of_length (fun j => by simp) _ _ i.isLt]
  simp

end Discrepancy

theorem DifferenceSweep.ok_of_map {β : Type} {sweep : DifferenceSweep α n n n} {b b' : β}
    (h : sweep.outcome.map (fun _ => b) = .ok b') : sweep.outcome = .ok () ∧ b = b' := by
  cases said : sweep.outcome with
  | error e =>
      rw [said] at h
      cases h
  | ok _ =>
      rw [said] at h
      exact ⟨rfl, Except.ok.inj h⟩

namespace JacobianCheck

variable [Scalar α] (check : JacobianCheck α) (f : VectorFunction α n)
  (jacobian : JacobianFunction α n) (x : Vector α n)

/-- The call at each place of a check. -/
inductive Called : Nat → SystemEntry α n (Event α) → Prop
  | probe : Called 0 (.residual ⟨x, f 1 x (.replicate n 0.0)⟩)
  | slopes : Called 1 (.jacobian x (jacobian 1 x (.replicate 0.0)))
  | raised (j : Fin n) (buffer : Vector α n) :
      Called (j + 2) (.residual ⟨x.set j (x.get j + check.perturbation),
        f (j + 2) (x.set j (x.get j + check.perturbation)) buffer⟩)

/-- A call that was answered, with finite values. -/
def Answered : SystemEntry α n (Event α) → Prop
  | .residual call => call.Usable
  | .jacobian _ answer => answer.error = none ∧ answer.contents.entries.all isFinite = true
  | _ => False

/-- Why the call at this place is the last. -/
inductive Halts (place : Nat) : SystemEntry α n (Event α) → Fault α → Prop
  | residual {call : VectorCall α n} {e : EvaluationError} :
      call.answer.error = some e → Halts place (.residual call) (.reported e)
  | jacobian {point : Vector α n} {answer : Written (DenseMatrix α n n)} {e : EvaluationError} :
      answer.error = some e → Halts place (.jacobian point answer) (.reported e)
  | probe {call : VectorCall α n} : place = 0 → call.answer.error = none →
      ¬ call.answer.contents.all isFinite = true → Halts place (.residual call) .nonFiniteProbe
  | slopes {point : Vector α n} {answer : Written (DenseMatrix α n n)} : answer.error = none →
      ¬ answer.contents.entries.all isFinite = true →
      Halts place (.jacobian point answer) .nonFiniteJacobian
  | raised {call : VectorCall α n} (j : Fin n) : place = j + 2 → call.answer.error = none →
      ¬ call.answer.contents.all isFinite = true →
      Halts place (.residual call) (.nonFinitePerturbed j (call.point.get j))

/-- How a check ends, by its calls. -/
inductive Ends (calls : List (SystemEntry α n (Event α))) :
    Except (Failure α) (JacobianReport α n) → Prop
  | complete {report : JacobianReport α n} : calls.length = n + 2 →
      (∀ call ∈ calls, Answered call) → Ends calls (.ok report)
  | halted {before : List (SystemEntry α n (Event α))} {last : SystemEntry α n (Event α)}
      {fault : Fault α} : calls = before ++ [last] → (∀ call ∈ before, Answered call) →
      Halts before.length last fault → Ends calls (.error (.evaluation fault))
  | refused : calls.length = 2 → (∀ call ∈ calls, Answered call) →
      ¬ (0.0 < check.perturbation ∧ isFinite check.perturbation = true) →
      Ends calls (.error (.input (.step check.perturbation)))

variable {check f jacobian x}

theorem Called.opening {rest : List (SystemEntry α n (Event α))}
    (called : ∀ k entry, rest[k]? = some entry → Called check f jacobian x (k + 2) entry) :
    ∀ k entry, (.residual ⟨x, f 1 x (.replicate n 0.0)⟩ ::
      .jacobian x (jacobian 1 x (.replicate 0.0)) :: rest)[k]? = some entry →
      Called check f jacobian x k entry
  | 0, _, h => by
      cases h
      exact .probe
  | 1, _, h => by
      cases h
      exact .slopes
  | k + 2, entry, h => called k entry h

theorem Called.of_sweep {fx : Vector α n} {a : DenseMatrix α n n} {counters : Counters} {k : Nat}
    {entry : SystemEntry α n (Event α)}
    (h : ((DifferenceSweep.fill (f.after 1) (.absolute check.perturbation) x fx a
      counters).calls.map .residual)[k]? = some entry) :
    Called check f jacobian x (k + 2) entry := by
  rw [List.getElem?_map] at h
  obtain ⟨call, called, rfl⟩ := Option.map_eq_some_iff.mp h
  obtain ⟨j, buffer, rfl, -, rfl⟩ := DifferenceSweep.fill_call called
  have number : 1 + (j.val + 1) = j + 2 := by omega
  rw [VectorFunction.after, number]
  exact .raised j buffer

/-- A sweep makes no call with a step that is refused. -/
theorem taken_of_mem {fx : Vector α n} {a : DenseMatrix α n n} {counters : Counters}
    {call : VectorCall α n} (mem : call ∈ (DifferenceSweep.fill (f.after 1)
      (.absolute check.perturbation) x fx a counters).calls) :
    0.0 < check.perturbation ∧ isFinite check.perturbation = true := by
  obtain ⟨l, called⟩ := List.getElem?_of_mem mem
  obtain ⟨j, _, -, taken, -⟩ := DifferenceSweep.fill_call called
  exact taken

/-- The calls before the sweep are answered, and it ends the check as it ends itself. -/
theorem Ends.of_sweep {calls : List (VectorCall α n)} {outcome : Except (Failure α) Unit}
    (h : DifferenceSweep.Ends (.absolute check.perturbation) x (List.finRange n) calls outcome)
    (taken : calls ≠ [] → 0.0 < check.perturbation ∧ isFinite check.perturbation = true)
    {first second : SystemEntry α n (Event α)} (answered : Answered first)
    (answered' : Answered second) (report : JacobianReport α n) :
    Ends check (first :: second :: calls.map .residual) (outcome.map fun _ => report) := by
  have opening {calls : List (VectorCall α n)} (usable : ∀ call ∈ calls, call.Usable) :
      ∀ call ∈ first :: second :: calls.map .residual, Answered call :=
    List.forall_mem_cons.mpr ⟨answered, List.forall_mem_cons.mpr ⟨answered',
      List.forall_mem_map.mpr usable⟩⟩
  cases h with
  | complete all usable =>
      refine .complete ?_ (opening usable)
      simp [all]
  | refused _ usable refused =>
      -- all steps are the same, so the first is refused
      obtain rfl : calls = [] := by
        by_contra some
        exact refused (taken some)
      exact .refused rfl (opening usable) refused
  | @spoiled j before call fault last at_end usable spoils =>
      have place : (first :: second :: before.map SystemEntry.residual).length = j + 2 := by
        rw [DifferenceSweep.getElem?_finRange_iff.mp at_end]
        simp
      have split : first :: second :: calls.map SystemEntry.residual =
          (first :: second :: before.map SystemEntry.residual) ++ [.residual call] := by
        rw [last, List.map_append]
        rfl
      refine .halted split (opening usable) ?_
      cases spoils with
      | reported said => exact .residual said
      | nonFinite answered infinite => exact .raised j place answered infinite

variable (check) in
/-- What is reported when all calls are answered. -/
def verdict (analytic : DenseMatrix α n n) (sweep : DifferenceSweep α n n n) :
    JacobianReport α n where
  analytic
  numerical := sweep.jacobian
  discrepancy := .between analytic sweep.jacobian
  condition := analytic.condition
  counters := sweep.counters

theorem bind_toRun (check : JacobianCheck α) (analytic : DenseMatrix α n n)
    (sweep : DifferenceSweep α n n n) :
    ((sweep.toRun : SystemRun α n (Event α) _).bind fun answer =>
      let report := verdict analytic { sweep with jacobian := answer.1, counters := answer.2 }
      ⟨(check.events report).map .event, .ok report⟩) =
    ⟨sweep.calls.map .residual ++
        (if sweep.outcome.isOk then check.events (verdict analytic sweep) else []).map .event,
      sweep.outcome.map fun _ => verdict analytic sweep⟩ := by
  obtain ⟨numerical, counters, calls, outcome⟩ := sweep
  cases outcome with
  | error e => exact congrArg (Run.mk · _) (List.append_nil _).symm
  | ok _ => rfl

/-- What becomes of a check: one of its first two calls is of no use, or it goes on with a sweep. -/
theorem run_cases (check : JacobianCheck α) (f : VectorFunction α n)
    (jacobian : JacobianFunction α n) (x : Vector α n) (nonempty : n ≠ 0) :
    let probe : VectorCall α n := ⟨x, f 1 x (.replicate n 0.0)⟩
    let slopes := jacobian 1 x (.replicate 0.0)
    (∃ fault, Halts 0 (.residual probe) fault ∧
        check.run f jacobian x = ⟨[.residual probe], .error (.evaluation fault)⟩) ∨
      probe.Usable ∧
        ((∃ fault, Halts 1 (.jacobian x slopes) fault ∧
            check.run f jacobian x =
              ⟨[.residual probe, .jacobian x slopes], .error (.evaluation fault)⟩) ∨
          Answered (.jacobian x slopes) ∧ ∃ sweep,
            sweep = DifferenceSweep.fill (f.after 1) (.absolute check.perturbation) x
              probe.answer.contents (.replicate 0.0)
              { functionEvaluations := 1, jacobianEvaluations := 1 } ∧
            check.run f jacobian x =
              ⟨.residual probe :: .jacobian x slopes :: sweep.calls.map .residual ++
                (if sweep.outcome.isOk then check.events (verdict slopes.contents sweep)
                  else []).map .event,
                sweep.outcome.map fun _ => verdict slopes.contents sweep⟩) := by
  intro probe slopes
  cases said : probe.answer.error with
  | some e =>
      have failed : (f.call 1 x (.replicate n 0.0) : SystemRun α n (Event α) _).outcome =
          .error (.evaluation (.reported e)) := Written.outcome_of_some said
      refine .inl ⟨_, .residual said, ?_⟩
      rw [run, if_neg nonempty]
      exact Run.bind_error failed _
  | none =>
      have value : (f.call 1 x (.replicate n 0.0) : SystemRun α n (Event α) _).outcome =
          .ok probe.answer.contents := Written.outcome_of_none said
      rw [run, if_neg nonempty]
      simp only [Run.bind_eq]
      rw [Run.bind_of_ok value]
      by_cases finite : probe.answer.contents.all isFinite = true
      · refine .inr ⟨⟨said, finite⟩, ?_⟩
        rw [if_neg (not_not.mpr finite)]
        cases said' : slopes.error with
        | some e =>
            have failed : (jacobian.call 1 x (.replicate 0.0) :
                SystemRun α n (Event α) _).outcome = .error (.evaluation (.reported e)) :=
              Written.outcome_of_some said'
            rw [Run.bind_error failed]
            exact .inl ⟨_, .jacobian said', rfl⟩
        | none =>
            have value' : (jacobian.call 1 x (.replicate 0.0) :
                SystemRun α n (Event α) _).outcome = .ok slopes.contents :=
              Written.outcome_of_none said'
            rw [Run.bind_of_ok value']
            by_cases finite' : slopes.contents.entries.all isFinite = true
            · refine .inr ⟨⟨said', finite'⟩, _, rfl, ?_⟩
              rw [if_neg (not_not.mpr finite')]
              exact congrArg (fun r => (r.after [.jacobian x slopes]).after [.residual probe])
                (bind_toRun check slopes.contents _)
            · rw [if_pos finite']
              exact .inl ⟨_, .slopes said' finite', rfl⟩
      · rw [if_pos finite]
        exact .inl ⟨_, .probe rfl said finite, rfl⟩

/-- How much is logged makes no difference to the outcome. -/
theorem outcome_verbose (check : JacobianCheck α) (f : VectorFunction α n)
    (jacobian : JacobianFunction α n) (x : Vector α n) (verbose : Bool) :
    ({ check with verbose }.run f jacobian x).outcome = (check.run f jacobian x).outcome := by
  unfold run
  split
  · rfl
  · refine Run.bind_outcome_congr fun fx => ?_
    split
    · rfl
    · refine Run.bind_outcome_congr fun analytic => ?_
      split
      · rfl
      · exact Run.bind_outcome_congr fun answer => rfl

end JacobianCheck

namespace JacobianCheck

variable [FloatingPoint α]

/-- A report in a verbose log: every entry, column after column, and then the whole. -/
structure LogsEntries (report : JacobianReport α n) (events : List (Event α)) : Prop where
  length : events.length = n * n + 1
  entry : ∀ i j : Fin n, events[j * n + i]? = some (.entry i j (report.analytic.entry i j)
    (report.numerical.entry i j) (report.numerical.entry i j - report.analytic.entry i j))
  summary : events[n * n]? = some (.summary report.discrepancy report.condition)
  level : ∀ event ∈ events, (Log.Loggable.record event).level = .info

/-- A report in any other log. -/
structure LogsResult (report : JacobianReport α n) (events : List (Event α)) : Prop where
  event : events = [.result report.discrepancy.relative report.condition]
  level : ∀ event ∈ events, (Log.Loggable.record event).level = .debug

theorem events_logged (check : JacobianCheck α) (report : JacobianReport α n) :
    if check.verbose then LogsEntries report (check.events report)
    else LogsResult report (check.events report) := by
  have length (entry : Fin n × Fin n → Event α) :
      ((Discrepancy.positions n).map entry).length = n * n := by
    rw [List.length_map, Discrepancy.length_positions]
  unfold events
  split
  · refine ⟨?_, fun i j => ?_, ?_, ?_⟩
    · rw [List.length_append, length]
      rfl
    · have at_place := Discrepancy.getElem?_positions i j
      rw [List.getElem?_append_left, List.getElem?_map, at_place]
      · rfl
      · rw [length, ← Discrepancy.length_positions]
        exact (List.getElem?_eq_some_iff.mp at_place).1
    · rw [List.getElem?_append_right (length _).le, length, Nat.sub_self]
      rfl
    · refine List.forall_mem_append.mpr ⟨List.forall_mem_map.mpr fun _ _ => rfl, ?_⟩
      exact List.forall_mem_singleton.mpr rfl
  · exact ⟨rfl, List.forall_mem_singleton.mpr rfl⟩

/-- A check that makes these calls, reports these events, and comes to this outcome. -/
structure Books (check : JacobianCheck α) (f : VectorFunction α n) (jacobian : JacobianFunction α n)
    (x : Vector α n) (calls : List (SystemEntry α n (Event α))) (events : List (Event α))
    (outcome : Except (Failure α) (JacobianReport α n)) : Prop where
  run_eq : check.run f jacobian x = ⟨calls ++ events.map .event, outcome⟩
  called : ∀ k entry, calls[k]? = some entry → Called check f jacobian x k entry
  ends : Ends check calls outcome
  silent : ∀ e, outcome = .error e → events = []
  counters : ∀ report, outcome = .ok report → report.counters = ⟨0, n + 1, 1⟩
  logged : ∀ report, outcome = .ok report →
    if check.verbose then LogsEntries report events else LogsResult report events

variable {check : JacobianCheck α} {f : VectorFunction α n} {jacobian : JacobianFunction α n}
  {x : Vector α n}

/-- A check that is ended by one of its first two calls. -/
theorem Books.broken_off (before : List (SystemEntry α n (Event α)))
    {last : SystemEntry α n (Event α)} {fault : Fault α}
    (run_eq : check.run f jacobian x = ⟨before ++ [last], .error (.evaluation fault)⟩)
    (called : ∀ k entry, (before ++ [last])[k]? = some entry → Called check f jacobian x k entry)
    (answered : ∀ call ∈ before, Answered call) (halts : Halts before.length last fault) :
    Books check f jacobian x (before ++ [last]) [] (.error (.evaluation fault)) where
  run_eq := by simp [run_eq]
  called
  ends := .halted rfl answered halts
  silent _ _ := rfl
  counters _ ok := by cases ok
  logged _ ok := by cases ok

/-- A check that goes on with a sweep. -/
theorem Books.of_sweep {analytic : DenseMatrix α n n} {sweep : DifferenceSweep α n n n}
    (usable : (⟨x, f 1 x (.replicate n 0.0)⟩ : VectorCall α n).Usable)
    (answered : Answered (.jacobian x (jacobian 1 x (.replicate 0.0)) :
      SystemEntry α n (Event α)))
    (eq : sweep = DifferenceSweep.fill (f.after 1) (.absolute check.perturbation) x
      (f 1 x (.replicate n 0.0)).contents (.replicate 0.0)
      { functionEvaluations := 1, jacobianEvaluations := 1 })
    (run_eq : check.run f jacobian x =
      ⟨.residual ⟨x, f 1 x (.replicate n 0.0)⟩ :: .jacobian x (jacobian 1 x (.replicate 0.0)) ::
          sweep.calls.map .residual ++
          (if sweep.outcome.isOk then check.events (verdict analytic sweep) else []).map .event,
        sweep.outcome.map fun _ => verdict analytic sweep⟩) :
    Books check f jacobian x
      (.residual ⟨x, f 1 x (.replicate n 0.0)⟩ :: .jacobian x (jacobian 1 x (.replicate 0.0)) ::
        sweep.calls.map .residual)
      (if sweep.outcome.isOk then check.events (verdict analytic sweep) else [])
      (sweep.outcome.map fun _ => verdict analytic sweep) where
  run_eq
  called := Called.opening fun k entry h => Called.of_sweep (eq ▸ h)
  ends := by
    have ends : DifferenceSweep.Ends (.absolute check.perturbation) x (List.finRange n)
      sweep.calls sweep.outcome := eq ▸ DifferenceSweep.fill_ends ..
    have first : Answered (.residual ⟨x, f 1 x (.replicate n 0.0)⟩ :
      SystemEntry α n (Event α)) := usable
    refine .of_sweep ends (fun some => ?_) first answered _
    obtain ⟨call, mem⟩ := List.exists_mem_of_ne_nil _ some
    rw [eq] at mem
    exact taken_of_mem mem
  silent e failed := by
    cases said : sweep.outcome with
    | error e => rfl
    | ok _ =>
        rw [said] at failed
        cases failed
  counters report ok := by
    have counted : sweep.counters = ⟨0, 1 + sweep.calls.length, 1⟩ :=
      eq ▸ DifferenceSweep.fill_counters ..
    have ends : DifferenceSweep.Ends (.absolute check.perturbation) x (List.finRange n)
      sweep.calls sweep.outcome := eq ▸ DifferenceSweep.fill_ends ..
    obtain ⟨done, rfl⟩ := DifferenceSweep.ok_of_map ok
    rw [done] at ends
    cases ends with
    | complete all _ =>
        rw [List.length_finRange] at all
        rw [verdict, counted, all, Nat.add_comm]
  logged report ok := by
    obtain ⟨done, rfl⟩ := DifferenceSweep.ok_of_map ok
    rw [done]
    exact events_logged check _

theorem run_books (check : JacobianCheck α) (f : VectorFunction α n)
    (jacobian : JacobianFunction α n) (x : Vector α n) (nonempty : n ≠ 0) :
    ∃ calls events outcome, Books check f jacobian x calls events outcome := by
  rcases run_cases check f jacobian x nonempty with
    ⟨fault, halts, run_eq⟩ | ⟨usable, ⟨fault, halts, run_eq⟩ | ⟨answered, sweep, eq, run_eq⟩⟩
  · refine ⟨_, _, _, .broken_off [] run_eq (fun k entry called => ?_)
      (fun _ mem => absurd mem List.not_mem_nil) halts⟩
    cases k with
    | zero =>
        cases called
        exact .probe
    | succ k => cases called
  · refine ⟨_, _, _, .broken_off [_] run_eq (Called.opening fun k entry called => ?_)
      (List.forall_mem_singleton.mpr usable) halts⟩
    cases called
  · exact ⟨_, _, _, .of_sweep usable answered eq run_eq⟩

/-- The calls, the counters and the events of every check agree, whatever comes of it, and a
verbose check comes to the same as a quiet one. -/
theorem run_keeps_books (check : JacobianCheck α) (f : VectorFunction α n)
    (jacobian : JacobianFunction α n) (x : Vector α n) (nonempty : n ≠ 0) :
    ∃ calls events outcome, Books check f jacobian x calls events outcome ∧
      ∀ verbose, ({ check with verbose }.run f jacobian x).outcome = outcome := by
  obtain ⟨calls, events, outcome, books⟩ := run_books check f jacobian x nonempty
  refine ⟨calls, events, outcome, books, fun verbose => ?_⟩
  rw [outcome_verbose, books.run_eq]

/-- The product and the sum of two numbers. -/
def productAndSum : VectorFunction Float 2 := fun _ x _ =>
  ⟨#v[x.get 0 * x.get 1, x.get 0 + x.get 1], none⟩

def slopesOfBoth : JacobianFunction Float 2 := fun _ x _ =>
  ⟨#v[#v[x.get 1, x.get 0], #v[1.0, 1.0]], none⟩

/-- A verbose check of four entries. -/
theorem run_keeps_books_product :
    ∃ calls events report, Books { perturbation := 0.5, verbose := true } productAndSum
        slopesOfBoth #v[1.0, 2.0] calls events (.ok report) ∧
      calls.length = 4 ∧ events.length = 5 ∧ report.counters = ⟨0, 3, 1⟩ := by
  obtain ⟨calls, events, outcome, books, -⟩ := run_keeps_books
    { perturbation := 0.5, verbose := true } productAndSum slopesOfBoth #v[1.0, 2.0] two_ne_zero
  have same : (run { perturbation := 0.5, verbose := true } productAndSum slopesOfBoth
    #v[1.0, 2.0]).outcome = outcome := congrArg Run.outcome books.run_eq
  have done : outcome.isOk = true := by
    rw [← same]
    decide +kernel
  cases outcome with
  | error e => cases done
  | ok report =>
      cases books.ends with
      | complete all _ =>
          exact ⟨calls, events, report, books, all, (books.logged report rfl).length,
            books.counters report rfl⟩

end JacobianCheck

end Nonlinear
