import Nonlinear.Proofs.Loop
import Nonlinear.Proofs.Search.Sample
import Nonlinear.Solution

/-! # The course of a scalar search

Both searches ask their function for one more point at a time, until the state is settled or
the budget is used up.  What they have in common is a loop over states and counters; a
`Scheme` says what they do differently.
-/

namespace Nonlinear

open Scalar

/-- How a search with states `σ` and events `ε` goes on. -/
structure Scheme (α ε σ : Type) where
  /-- The state is good enough. -/
  settled : σ → Prop
  [decidable : DecidablePred settled]
  /-- The point to ask for. -/
  target : σ → α
  update : σ → Sample α → σ
  /-- The sample to answer. -/
  answer : σ → Sample α
  stepped : σ → (iteration : Nat) → Sample α → ε
  converged : Sample α → Counters → ε
  limit : (iterations : Nat) → Sample α → ε

namespace Scheme

variable {α ε σ : Type} [Scalar α]

instance (scheme : Scheme α ε σ) : DecidablePred scheme.settled := scheme.decidable

/-- The iterations of a search as a loop over states and counters. -/
def loop (scheme : Scheme α ε σ) (f : ScalarFunction α) (budget : Nat) :
    Loop (SearchEntry α ε) (Failure α) (σ × Counters) (Solution α) where
  done s := scheme.settled s.1
  finish s :=
    ⟨[.event (scheme.converged (scheme.answer s.1) s.2)],
      .ok ⟨(scheme.answer s.1).x, (scheme.answer s.1).y, s.2⟩⟩
  giveUp s :=
    ⟨[.event (scheme.limit budget (scheme.answer s.1))], .error (.iterationLimit budget)⟩
  step s := (f.sample (s.2.functionEvaluations + 1) (scheme.target s.1)).bind fun p =>
    ⟨[.event (scheme.stepped s.1 (s.2.iterations + 1) p)],
      .ok (scheme.update s.1 p, s.2.countFunction.countIteration)⟩

/-- A search comes to a state in `k` iterations, and leaves a trace on the way.  How it may
start, and with which trace, is given. -/
def Reaches (scheme : Scheme α ε σ) (f : ScalarFunction α) (budget : Nat)
    (starts : List (SearchEntry α ε) → σ × Counters → Prop) (k : Nat)
    (trace : List (SearchEntry α ε)) (t : σ × Counters) : Prop :=
  ∃ opening s inner, starts opening s ∧ k ≤ budget ∧
    (scheme.loop f budget).Leads s k inner t ∧ trace = opening ++ inner

variable {scheme : Scheme α ε σ} {f : ScalarFunction α} {budget : Nat}

@[simp]
theorem finish_arguments (s : σ × Counters) :
    SearchEntry.arguments ((scheme.loop f budget).finish s).trace = [] := rfl

@[simp]
theorem giveUp_arguments (s : σ × Counters) :
    SearchEntry.arguments ((scheme.loop f budget).giveUp s).trace = [] := rfl

theorem step_ok_iff {s t : σ × Counters} :
    ((scheme.loop f budget).step s).outcome = .ok t ↔
      ∃ p, f.Gives (s.2.functionEvaluations + 1) (scheme.target s.1) p ∧
        t = (scheme.update s.1 p, s.2.countFunction.countIteration) := by
  constructor
  · intro h
    obtain ⟨p, sampled, -, same⟩ := Run.ok_of_bind h
    cases same
    exact ⟨p, ScalarFunction.sample_ok_iff.mp sampled, rfl⟩
  · intro ⟨p, gives, same⟩
    subst same
    simp only [loop, Run.bind_ok (ScalarFunction.sample_ok_iff.mpr gives)]

theorem leads_counters {s t : σ × Counters} {k : Nat} {trace : List (SearchEntry α ε)}
    (h : (scheme.loop f budget).Leads s k trace t) :
    t.2 = ⟨s.2.iterations + k, s.2.functionEvaluations + k, s.2.jacobianEvaluations⟩ := by
  induction h with
  | here => rfl
  | @next k _ t _ _ _ ok ih =>
      obtain ⟨p, -, rfl⟩ := step_ok_iff.mp ok
      show t.2.countFunction.countIteration = _
      rw [ih]
      rfl

theorem leads_iterations {s t : σ × Counters} {k : Nat} {trace : List (SearchEntry α ε)}
    (h : (scheme.loop f budget).Leads s k trace t) : t.2.iterations = s.2.iterations + k := by
  rw [leads_counters h]

/-- An iteration makes one call, whatever comes of it. -/
theorem step_trace (scheme : Scheme α ε σ) (f : ScalarFunction α) (budget : Nat)
    (s : σ × Counters) : ∃ events : List ε,
      ((scheme.loop f budget).step s).trace =
        .call (scheme.target s.1) (f (s.2.functionEvaluations + 1) (scheme.target s.1)) ::
          events.map .event := by
  cases sampled : (f.sample (s.2.functionEvaluations + 1) (scheme.target s.1) :
      Run (SearchEntry α ε) (Failure α) (Sample α)).outcome with
  | error e =>
      refine ⟨[], ?_⟩
      simp only [loop, Run.bind_error sampled, ScalarFunction.sample_trace, List.map_nil]
  | ok p =>
      refine ⟨[scheme.stepped s.1 (s.2.iterations + 1) p], ?_⟩
      simp only [loop, Run.bind_ok sampled, ScalarFunction.sample_trace, List.cons_append,
        List.nil_append, List.map_cons, List.map_nil]

theorem step_trace_of_gives {s : σ × Counters} {p : Sample α}
    (gives : f.Gives (s.2.functionEvaluations + 1) (scheme.target s.1) p) :
    ((scheme.loop f budget).step s).trace =
      [.call p.x (.ok p.y), .event (scheme.stepped s.1 (s.2.iterations + 1) p)] := by
  simp only [loop, Run.bind_ok (ScalarFunction.sample_ok_iff.mpr gives),
    ScalarFunction.sample_trace, gives.answer, gives.at_point, List.cons_append, List.nil_append]

/-- Every iteration makes one call. -/
theorem leads_arguments {s t : σ × Counters} {k : Nat} {trace : List (SearchEntry α ε)}
    (h : (scheme.loop f budget).Leads s k trace t) :
    (SearchEntry.arguments trace).length = k := by
  induction h with
  | here => rfl
  | @next k inner t u _ _ _ ih =>
      obtain ⟨events, eq⟩ := scheme.step_trace f budget t
      simp [eq, ih]

theorem run_arguments {s : σ × Counters} (unsettled : ¬ scheme.settled s.1) (n : Nat) :
    ∃ rest, SearchEntry.arguments ((scheme.loop f budget).run (n + 1) s).trace =
        scheme.target s.1 :: rest ∧
      (rest = [] ∨ ∃ t, ((scheme.loop f budget).step s).outcome = .ok t ∧
        rest = SearchEntry.arguments ((scheme.loop f budget).run n t).trace) := by
  obtain ⟨events, eq⟩ := scheme.step_trace f budget s
  rw [Loop.run_succ unsettled]
  cases ok : ((scheme.loop f budget).step s).outcome with
  | error e =>
      refine ⟨[], ?_, .inl rfl⟩
      rw [Run.bind_error ok, eq, SearchEntry.arguments_call, SearchEntry.arguments_events]
  | ok t =>
      refine ⟨_, ?_, .inr ⟨t, rfl, rfl⟩⟩
      rw [Run.bind_of_ok ok, Run.after_trace, eq, List.cons_append, SearchEntry.arguments_call,
        SearchEntry.arguments_append, SearchEntry.arguments_events, List.nil_append]

/-- The points that a loop asks for are the targets of the states it comes to. -/
theorem leads_of_argument {n k : Nat} {s : σ × Counters} {x : α}
    (h : (SearchEntry.arguments ((scheme.loop f budget).run n s).trace)[k]? = some x) :
    ∃ inner t, (scheme.loop f budget).Leads s k inner t ∧ k < n ∧ ¬ scheme.settled t.1 ∧
      x = scheme.target t.1 := by
  induction n generalizing s k with
  | zero =>
      rw [Loop.run] at h
      split at h <;> cases h
  | succ n ih =>
      by_cases settled : scheme.settled s.1
      · rw [Loop.run_of_done settled] at h
        cases h
      · obtain ⟨rest, eq, more⟩ := run_arguments settled n
        rw [eq] at h
        cases k with
        | zero =>
            cases h
            exact ⟨[], s, .here, Nat.succ_pos n, settled, rfl⟩
        | succ k =>
            rw [List.getElem?_cons_succ] at h
            rcases more with rfl | ⟨u, ok, rfl⟩
            · cases h
            · obtain ⟨inner, t, leads, lt, unsettled, at_target⟩ := ih h
              exact ⟨_, t, leads.head settled ok, Nat.succ_lt_succ lt, unsettled, at_target⟩

theorem leads_of_mem_arguments {n : Nat} {s : σ × Counters} {x : α}
    (h : x ∈ SearchEntry.arguments ((scheme.loop f budget).run n s).trace) :
    ∃ k inner t, (scheme.loop f budget).Leads s k inner t ∧ k < n ∧ ¬ scheme.settled t.1 ∧
      x = scheme.target t.1 := by
  obtain ⟨k, at_k⟩ := List.mem_iff_getElem?.mp h
  obtain ⟨inner, t, leads⟩ := leads_of_argument at_k
  exact ⟨k, inner, t, leads⟩

variable {starts : List (SearchEntry α ε) → σ × Counters → Prop} {k : Nat}
  {opening trace : List (SearchEntry α ε)} {s t : σ × Counters}
  {course : Run (SearchEntry α ε) (Failure α) (Solution α)}

/-- A search goes on from every state it comes to, with what is left of its budget. -/
theorem Reaches.course_eq
    (begins : ∀ opening s, starts opening s →
      course = ((scheme.loop f budget).run budget s).after opening)
    (h : scheme.Reaches f budget starts k trace t) :
    k ≤ budget ∧ course = ((scheme.loop f budget).run (budget - k) t).after trace := by
  obtain ⟨opening, s, inner, start, le, leads, same⟩ := h
  have further := Loop.run_of_leads leads (budget - k)
  rw [Nat.add_sub_cancel' le] at further
  refine ⟨le, ?_⟩
  rw [begins opening s start, further, Run.after_after, same]

theorem Reaches.trace_prefix
    (begins : ∀ opening s, starts opening s →
      course = ((scheme.loop f budget).run budget s).after opening)
    (h : scheme.Reaches f budget starts k trace t) : trace <+: course.trace := by
  rw [(h.course_eq begins).2]
  exact List.prefix_append trace _

/-- Every iteration up to a state has made one call. -/
theorem Reaches.length_arguments {n : Nat}
    (calls : ∀ opening s, starts opening s → (SearchEntry.arguments opening).length = n)
    (h : scheme.Reaches f budget starts k trace t) :
    (SearchEntry.arguments trace).length = n + k := by
  obtain ⟨opening, s, inner, start, -, leads, same⟩ := h
  rw [same, SearchEntry.arguments_append, List.length_append, calls opening s start,
    leads_arguments leads]

theorem Reaches.unique
    (same_start : ∀ opening s opening' s', starts opening s → starts opening' s' → s = s')
    {trace' : List (SearchEntry α ε)} {t' : σ × Counters}
    (h : scheme.Reaches f budget starts k trace t)
    (h' : scheme.Reaches f budget starts k trace' t') : t = t' := by
  obtain ⟨opening, s, inner, start, -, leads, -⟩ := h
  obtain ⟨opening', s', inner', start', -, leads', -⟩ := h'
  obtain rfl : s = s' := same_start _ _ _ _ start start'
  exact (leads.unique leads').2

theorem reaches_of_stateAfter (start : starts opening s) (le : k ≤ budget)
    (h : (scheme.loop f budget).stateAfter k s = some t) :
    ∃ trace, scheme.Reaches f budget starts k trace t := by
  obtain ⟨inner, leads⟩ := Loop.leads_of_stateAfter h
  exact ⟨_, _, _, inner, start, le, leads, rfl⟩

/-- What one more iteration does to the state. -/
theorem Reaches.succ (h : scheme.Reaches f budget starts (k + 1) trace t) :
    ∃ earlier s p, scheme.Reaches f budget starts k earlier s ∧ ¬ scheme.settled s.1 ∧
      f.Gives (s.2.functionEvaluations + 1) (scheme.target s.1) p ∧
      t = (scheme.update s.1 p, s.2.countFunction.countIteration) := by
  obtain ⟨opening, s, inner, start, le, leads, -⟩ := h
  cases leads with
  | next earlier more ok =>
      obtain ⟨p, gives, same⟩ := step_ok_iff.mp ok
      exact ⟨_, _, p, ⟨opening, s, _, start, Nat.le_of_succ_le le, earlier, rfl⟩, more, gives,
        same⟩

theorem Reaches.next {p : Sample α} (h : scheme.Reaches f budget starts k trace t)
    (lt : k < budget) (unsettled : ¬ scheme.settled t.1)
    (gives : f.Gives (t.2.functionEvaluations + 1) (scheme.target t.1) p) :
    ∃ more, scheme.Reaches f budget starts (k + 1) more
      (scheme.update t.1 p, t.2.countFunction.countIteration) := by
  obtain ⟨opening, s, inner, start, -, leads, -⟩ := h
  exact ⟨_, opening, s, _, start, lt,
    leads.next unsettled (step_ok_iff.mpr ⟨p, gives, rfl⟩), rfl⟩

/-- A search has come through a state after any smaller number of iterations. -/
theorem Reaches.earlier {m : Nat} (h : scheme.Reaches f budget starts k trace t) (le : m ≤ k) :
    ∃ before s, scheme.Reaches f budget starts m before s := by
  induction k generalizing trace t with
  | zero =>
      obtain rfl : m = 0 := Nat.le_zero.mp le
      exact ⟨trace, t, h⟩
  | succ k ih =>
      rcases Nat.le_succ_iff.mp le with le | rfl
      · obtain ⟨_, _, _, before, -⟩ := h.succ
        exact ih before le
      · exact ⟨trace, t, h⟩

/-- A search does not go on from a settled state. -/
theorem Reaches.le_of_settled {n : Nat} {trace' : List (SearchEntry α ε)} {t' : σ × Counters}
    (h : scheme.Reaches f budget starts n trace t)
    (h' : scheme.Reaches f budget starts k trace' t')
    (same_start : ∀ opening s opening' s', starts opening s → starts opening' s' → s = s')
    (settled : scheme.settled t.1) : k ≤ n := by
  refine Nat.le_of_not_lt fun beyond => ?_
  obtain ⟨_, _, further⟩ := h'.earlier (m := n + 1) beyond
  obtain ⟨_, u, _, before, unsettled, -⟩ := further.succ
  rw [before.unique same_start h] at unsettled
  exact unsettled settled

/-- What is found of the states up to a settled one holds of all states of a search. -/
theorem Reaches.of_states {P : σ → Prop} [DecidablePred P] {n : Nat}
    (h : scheme.Reaches f budget starts k trace t)
    (same_start : ∀ opening s opening' s', starts opening s → starts opening' s' → s = s')
    (start : starts opening s) (le : n ≤ budget)
    (found : ∀ j ≤ n, ((scheme.loop f budget).stateAfter j s).any (fun t => P t.1) = true)
    (settles : ((scheme.loop f budget).stateAfter n s).any
      (fun t => scheme.settled t.1) = true) : P t.1 := by
  obtain ⟨last, at_last, settled⟩ := (Option.any_eq_true _ _).mp settles
  obtain ⟨_, ends⟩ := reaches_of_stateAfter start le at_last
  have few : k ≤ n := ends.le_of_settled h same_start (of_decide_eq_true settled)
  obtain ⟨u, at_u, holds⟩ := (Option.any_eq_true _ _).mp (found k few)
  obtain ⟨_, reaches⟩ := reaches_of_stateAfter start (Nat.le_trans few le) at_u
  rw [h.unique same_start reaches]
  exact of_decide_eq_true holds

/-- What every start establishes and every iteration carries on holds of all states of a search.
`P` is about the number of iterations, the trace they left and the state they led to. -/
theorem Reaches.history {P : Nat → List (SearchEntry α ε) → σ → Prop}
    (start : ∀ opening s, starts opening s → P 0 opening s.1)
    (step : ∀ k trace s p event, scheme.Reaches f budget starts k trace s → P k trace s.1 →
      ¬ scheme.settled s.1 → f.Gives (s.2.functionEvaluations + 1) (scheme.target s.1) p →
      P (k + 1) (trace ++ [.call p.x (.ok p.y), .event event]) (scheme.update s.1 p))
    (h : scheme.Reaches f budget starts k trace t) : P k trace t.1 := by
  obtain ⟨opening, s, inner, begins, le, leads, same⟩ := h
  rw [same]
  clear same
  induction leads with
  | here =>
      rw [List.append_nil]
      exact start opening s begins
  | @next k inner t u earlier more ok ih =>
      replace le := Nat.le_of_succ_le le
      obtain ⟨p, gives, same⟩ := step_ok_iff.mp ok
      rw [← List.append_assoc, step_trace_of_gives gives, same]
      exact step k _ t p _ ⟨opening, s, inner, begins, le, earlier, rfl⟩ (ih le) more gives

/-- The same for what is only about a state and the trace up to it. -/
theorem Reaches.invariant {P : List (SearchEntry α ε) → σ → Prop}
    (start : ∀ opening s, starts opening s → P opening s.1)
    (step : ∀ k trace more s p, scheme.Reaches f budget starts k trace s → P trace s.1 →
      ¬ scheme.settled s.1 → f.Gives (s.2.functionEvaluations + 1) (scheme.target s.1) p →
      p.Taken more → P (trace ++ more) (scheme.update s.1 p))
    (h : scheme.Reaches f budget starts k trace t) : P trace t.1 := by
  refine Reaches.history (P := fun _ => P) start ?_ h
  intro k trace s p event reaches holds unsettled gives
  exact step k trace _ s p reaches holds unsettled gives List.mem_cons_self

/-- A search that succeeds in its loop answers the sample of a settled state. -/
theorem reaches_of_ok (begins : course = ((scheme.loop f budget).run budget s).after opening)
    (start : starts opening s) {r : Solution α} (ok : course.outcome = .ok r) :
    ∃ k trace t, scheme.Reaches f budget starts k trace t ∧ scheme.settled t.1 ∧
      r.x = (scheme.answer t.1).x ∧ r.value = (scheme.answer t.1).y := by
  rw [begins, Run.after_outcome] at ok
  obtain ⟨k, inner, t, le, leads, settled, finished⟩ := Loop.finished_of_ok (fun _ => ⟨_, rfl⟩) ok
  cases finished
  exact ⟨k, _, t, ⟨opening, s, inner, start, le, leads, rfl⟩, settled, rfl, rfl⟩

/-- Where the function always gives a value, only the budget can keep a search from success. -/
theorem ok_or_exhausted (begins : course = ((scheme.loop f budget).run budget s).after opening)
    (start : starts opening s) (total : ∀ k x, ∃ p, f.Gives k x p) :
    (∃ r, course.outcome = .ok r) ∨
      ∃ trace t, scheme.Reaches f budget starts budget trace t ∧ ¬ scheme.settled t.1 := by
  obtain ⟨k, inner, t, last, leads, ends, eq⟩ := (scheme.loop f budget).run_ends budget s
  rw [begins, Run.after_outcome, eq, Run.after_outcome]
  cases ends with
  | finished => exact .inl ⟨_, rfl⟩
  | exhausted unsettled =>
      exact .inr ⟨_, t, ⟨opening, s, inner, start, Nat.le_refl _, leads, rfl⟩, unsettled⟩
  | failed _ _ fails =>
      obtain ⟨p, gives⟩ := total (t.2.functionEvaluations + 1) (scheme.target t.1)
      cases fails.symm.trans (step_ok_iff.mpr ⟨p, gives, rfl⟩)

/-- Where the function always gives a value, a search comes through as many iterations as its budget
allows, until a state is settled. -/
theorem reaches_of_unsettled (start : starts opening s) (total : ∀ k x, ∃ p, f.Gives k x p)
    (le : k ≤ budget)
    (unsettled : ∀ j < k, ∀ trace t, scheme.Reaches f budget starts j trace t →
      ¬ scheme.settled t.1) : ∃ trace t, scheme.Reaches f budget starts k trace t := by
  induction k with
  | zero => exact ⟨_, s, opening, s, [], start, le, .here, rfl⟩
  | succ k ih =>
      obtain ⟨trace, t, reaches⟩ := ih (Nat.le_of_succ_le le)
        fun j lt => unsettled j (Nat.lt_succ_of_lt lt)
      obtain ⟨p, gives⟩ := total (t.2.functionEvaluations + 1) (scheme.target t.1)
      obtain ⟨more, next⟩ :=
        reaches.next le (unsettled k (Nat.lt_succ_self k) trace t reaches) gives
      exact ⟨more, _, next⟩

/-- A search whose states are settled after `n` iterations succeeds in no more of them, where the
function always gives a value. -/
theorem ok_within (begins : course = ((scheme.loop f budget).run budget s).after opening)
    (start : starts opening s) (total : ∀ k x, ∃ p, f.Gives k x p) {n : Nat}
    (settles : ∀ trace t, scheme.Reaches f budget starts n trace t → scheme.settled t.1)
    (enough : n ≤ budget) :
    ∃ r, course.outcome = .ok r ∧ r.counters.iterations ≤ s.2.iterations + n := by
  obtain ⟨k, inner, t, _, leads, ends, eq⟩ := (scheme.loop f budget).run_ends budget s
  have reaches : scheme.Reaches f budget starts k (opening ++ inner) t :=
    ⟨opening, s, inner, start, ends.le, leads, rfl⟩
  have few : k ≤ n := by
    refine Nat.le_of_not_lt fun beyond => ?_
    obtain ⟨_, u, further⟩ := reaches.earlier (m := n + 1) beyond
    obtain ⟨_, u, _, before, unsettled, -⟩ := further.succ
    exact unsettled (settles _ u before)
  rw [begins, Run.after_outcome, eq, Run.after_outcome]
  cases ends with
  | finished =>
      refine ⟨_, rfl, ?_⟩
      show t.2.iterations ≤ _
      rw [leads_iterations leads]
      exact Nat.add_le_add_left few _
  | exhausted unsettled =>
      obtain rfl : n = budget := Nat.le_antisymm enough few
      exact absurd (settles _ t reaches) unsettled
  | failed _ _ fails =>
      obtain ⟨p, gives⟩ := total (t.2.functionEvaluations + 1) (scheme.target t.1)
      cases fails.symm.trans (step_ok_iff.mpr ⟨p, gives, rfl⟩)

/-- The points that a search asks for after its opening are the targets of its states. -/
theorem reaches_of_argument
    (begins : course = ((scheme.loop f budget).run budget s).after opening)
    (start : starts opening s) {x : α}
    (asked : (SearchEntry.arguments course.trace)[(SearchEntry.arguments opening).length + k]? =
      some x) :
    ∃ trace t, scheme.Reaches f budget starts k trace t ∧ k < budget ∧ ¬ scheme.settled t.1 ∧
      x = scheme.target t.1 := by
  rw [begins, Run.after_trace, SearchEntry.arguments_append,
    List.getElem?_append_right (Nat.le_add_right _ _), Nat.add_sub_cancel_left] at asked
  obtain ⟨inner, t, leads, lt, unsettled, same⟩ := leads_of_argument asked
  exact ⟨_, t, ⟨opening, s, inner, start, Nat.le_of_lt lt, leads, rfl⟩, lt, unsettled, same⟩

/-- Within its budget a search asks for the target of every state that is not settled. -/
theorem Reaches.argument
    (begins : ∀ opening s, starts opening s →
      course = ((scheme.loop f budget).run budget s).after opening)
    (h : scheme.Reaches f budget starts k trace t) (lt : k < budget)
    (unsettled : ¬ scheme.settled t.1) :
    (SearchEntry.arguments course.trace)[(SearchEntry.arguments trace).length]? =
      some (scheme.target t.1) := by
  obtain ⟨left, more⟩ : ∃ left, budget - k = left + 1 := ⟨budget - k - 1, by omega⟩
  obtain ⟨rest, calls, -⟩ :
      ∃ rest, SearchEntry.arguments ((scheme.loop f budget).run (left + 1) t).trace =
        scheme.target t.1 :: rest ∧ _ := run_arguments unsettled left
  rw [(h.course_eq begins).2, more, Run.after_trace, SearchEntry.arguments_append, calls,
    List.getElem?_append_right (Nat.le_refl _), Nat.sub_self]
  rfl

end Scheme

end Nonlinear
