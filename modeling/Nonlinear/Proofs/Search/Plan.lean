import Nonlinear.Log.Record
import Nonlinear.Proofs.Search.Propagation

/-! # What a search leaves behind

A search leaves three records of itself: the calls it makes, the counters of its solution, and the
events it reports.  A `Plan` says how many there may be of each and in which order they stand, and a
loop of iterations keeps to the plan that belongs to it.
-/

namespace Nonlinear

open Scalar

/-- A completed iteration, as it is seen from outside. -/
structure Visit (α κ : Type) where
  sample : Sample α
  kind : κ

variable {α ε κ σ : Type}

def Sample.entry (p : Sample α) : SearchEntry α ε := .call p.x (.ok p.y)

/-- A call and an event for each iteration.  The first of them has the number `i`. -/
def Visit.entries (event : Nat → α → α → κ → ε) : (i : Nat) → List (Visit α κ) →
    List (SearchEntry α ε)
  | _, [] => []
  | i, v :: visits =>
    v.sample.entry :: .event (event i v.sample.x v.sample.y v.kind) ::
      entries event (i + 1) visits

theorem Visit.entries_append (event : Nat → α → α → κ → ε) (i : Nat)
    (visits more : List (Visit α κ)) :
    entries event i (visits ++ more) =
      entries event i visits ++ entries event (i + visits.length) more := by
  induction visits generalizing i with
  | nil => rfl
  | cons v visits ih =>
      rw [List.cons_append, entries, ih, entries, List.length_cons, Nat.add_right_comm]
      rfl

theorem forall_getElem?_append {β : Type} {xs ys : List β} {P : Nat → β → Prop}
    (h : ∀ i y, xs[i]? = some y → P i y) (h' : ∀ i y, ys[i]? = some y → P (xs.length + i) y) :
    ∀ i y, (xs ++ ys)[i]? = some y → P i y := by
  intro i y at_i
  rcases Nat.lt_or_ge i xs.length with lt | ge
  · rw [List.getElem?_append_left lt] at at_i
    exact h i y at_i
  · rw [List.getElem?_append_right ge] at at_i
    have last := h' _ y at_i
    rwa [Nat.add_sub_cancel' ge] at last

theorem forall_getElem?_concat {β : Type} {xs : List β} {x : β} {P : Nat → β → Prop}
    (h : ∀ i y, xs[i]? = some y → P i y) (last : P xs.length x) :
    ∀ i y, (xs ++ [x])[i]? = some y → P i y := by
  apply forall_getElem?_append h
  intro i y at_i
  cases i with
  | zero =>
      cases at_i
      exact last
  | succ i => cases at_i

namespace ScalarFunction

variable [Scalar α]

/-- The first calls of the function give these samples. -/
def Answers (f : ScalarFunction α) (samples : List (Sample α)) : Prop :=
  ∀ m p, samples[m]? = some p → f.Gives (m + 1) p.x p

theorem answers_nil (f : ScalarFunction α) : f.Answers [] := fun _ _ none => by cases none

theorem Answers.concat {f : ScalarFunction α} {samples : List (Sample α)} {p : Sample α} {x : α}
    (h : f.Answers samples) (next : f.Gives (samples.length + 1) x p) :
    f.Answers (samples ++ [p]) :=
  forall_getElem?_concat h (next.at_point ▸ next)

end ScalarFunction

/-- What a search may do. -/
structure Plan (α ε κ : Type) where
  /-- The points that it asks for before its first iteration. -/
  opening : List α
  /-- After `k` iterations it may ask for this point by this kind of step. -/
  asks : (k : Nat) → α → κ → Prop
  /-- How it reports an iteration. -/
  event : (iteration : Nat) → (x fx : α) → κ → ε
  /-- The most iterations that it makes. -/
  budget : Nat
  /-- The failures with which it may stop short of its first iteration. -/
  refuses : Failure α → Prop

namespace Plan

/-- The point of the next call after `m` calls. -/
def Next (plan : Plan α ε κ) (m : Nat) (x : α) : Prop :=
  plan.opening[m]? = some x ∨ ∃ k kind, m = plan.opening.length + k ∧ plan.asks k x kind

variable [Scalar α] [Log.Loggable ε]

/-- How a search ends after `m` calls and `k` iterations.  Either it says what it has come to in one
event for debugging, or one more call fails and cuts it off. -/
inductive Closes (plan : Plan α ε κ) (f : ScalarFunction α) (m k : Nat) :
    Run (SearchEntry α ε) (Failure α) (Solution α) → Prop where
  | found {event x value} : m = plan.opening.length + k →
      (Log.Loggable.record event).level = .debug →
      Closes plan f m k ⟨[.event event], .ok ⟨x, value, ⟨k, k + plan.opening.length, 0⟩⟩⟩
  | exhausted {event} : m = plan.opening.length + k →
      (Log.Loggable.record event).level = .debug → k = plan.budget →
      Closes plan f m k ⟨[.event event], .error (.iterationLimit k)⟩
  | refused {event failure} : m = plan.opening.length → k = 0 →
      (Log.Loggable.record event).level = .debug → plan.refuses failure →
      Closes plan f m k ⟨[.event event], .error failure⟩
  | cutOff {x failure} : plan.Next m x →
      SearchEntry.alarm (.call x (f (m + 1) x) : SearchEntry α ε) = some failure →
      Closes plan f m k ⟨[.call x (f (m + 1) x)], .error failure⟩

/-- A course that consists of calls in the opening, of completed iterations and of an ending, as the
plan has them. -/
structure Keeps (plan : Plan α ε κ) (f : ScalarFunction α)
    (course : Run (SearchEntry α ε) (Failure α) (Solution α)) (calls : List (Sample α))
    (visits : List (Visit α κ)) (closing : Run (SearchEntry α ε) (Failure α) (Solution α)) :
    Prop where
  course_eq : course = closing.after (calls.map Sample.entry ++ Visit.entries plan.event 1 visits)
  opening : calls.map Sample.x <+: plan.opening
  /-- No iteration before the opening is complete. -/
  complete : visits ≠ [] → calls.map Sample.x = plan.opening
  /-- Iterations are traced. -/
  traced : ∀ i x fx kind, (Log.Loggable.record (plan.event i x fx kind)).level = .trace
  asked : ∀ k v, visits[k]? = some v → plan.asks k v.sample.x v.kind
  answers : f.Answers (calls ++ visits.map Visit.sample)
  closes : plan.Closes f (calls.length + visits.length) visits.length closing

/-- The course keeps to the plan. -/
def Follows (plan : Plan α ε κ) (f : ScalarFunction α)
    (course : Run (SearchEntry α ε) (Failure α) (Solution α)) : Prop :=
  ∃ calls visits closing, plan.Keeps f course calls visits closing

/-- A course without iterations. -/
theorem follows_of_calls {plan : Plan α ε κ} {f : ScalarFunction α} (calls : List (Sample α))
    {closing : Run (SearchEntry α ε) (Failure α) (Solution α)}
    (traced : ∀ i x fx kind, (Log.Loggable.record (plan.event i x fx kind)).level = .trace)
    (opening : calls.map Sample.x <+: plan.opening) (answers : f.Answers calls)
    (closes : plan.Closes f calls.length 0 closing) :
    plan.Follows f (closing.after (calls.map Sample.entry)) := by
  refine ⟨calls, [], closing, ?_, opening, ?_, traced, ?_, ?_, closes⟩
  · rw [Visit.entries, List.append_nil]
  · intro none
    cases none rfl
  · intro k v none
    cases none
  · rw [List.map_nil, List.append_nil]
    exact answers

end Plan

namespace Scheme

variable [Scalar α] {scheme : Scheme α ε σ} {f : ScalarFunction α} {budget : Nat}
  {s t : σ × Counters} {k : Nat} {inner : List (SearchEntry α ε)}

theorem step_error {e : Failure α} (h : ((scheme.loop f budget).step s).outcome = .error e) :
    let answer := f (s.2.functionEvaluations + 1) (scheme.target s.1)
    SearchEntry.alarm (.call (scheme.target s.1) answer : SearchEntry α ε) = some e ∧
      ((scheme.loop f budget).step s).trace = [.call (scheme.target s.1) answer] := by
  cases sampled : (f.sample (s.2.functionEvaluations + 1) (scheme.target s.1) :
      Run (SearchEntry α ε) (Failure α) (Sample α)).outcome with
  | error e' =>
      have step : (scheme.loop f budget).step s = _ := Run.bind_error sampled _
      rw [step] at h
      cases h
      exact ⟨ScalarFunction.sample_error_iff.mp sampled, congrArg Run.trace step⟩
  | ok p =>
      have step : (scheme.loop f budget).step s = _ := Run.bind_of_ok sampled _
      rw [step] at h
      cases h

/-- Iterations leave a call and an event each. -/
theorem leads_visits {event : Nat → α → α → κ → ε} {kind : σ → κ}
    (reports : ∀ s i p, scheme.stepped s i p = event i p.x p.y (kind s))
    (h : (scheme.loop f budget).Leads s k inner t) : ∃ visits : List (Visit α κ),
      visits.length = k ∧ inner = Visit.entries event (s.2.iterations + 1) visits ∧
      ∀ i v, visits[i]? = some v → ∃ earlier u, (scheme.loop f budget).Leads s i earlier u ∧
        ¬ scheme.settled u.1 ∧ v.kind = kind u.1 ∧
        f.Gives (s.2.functionEvaluations + i + 1) (scheme.target u.1) v.sample := by
  induction h with
  | here => exact ⟨[], rfl, rfl, fun i v none => by cases none⟩
  | @next k inner t u leads more ok ih =>
      obtain ⟨visits, length, same, each⟩ := ih
      obtain ⟨p, gives, -⟩ := step_ok_iff.mp ok
      have counters := leads_counters leads
      refine ⟨visits ++ [⟨p, kind t.1⟩], ?_, ?_, ?_⟩
      · rw [List.length_append, length]
        rfl
      · rw [step_trace_of_gives gives, Visit.entries_append, ← same, reports, length, counters,
          Nat.add_right_comm]
        rfl
      · refine forall_getElem?_concat each ⟨inner, t, ?_, more, rfl, ?_⟩
        · rw [length]
          exact leads
        · rw [counters] at gives
          rw [length]
          exact gives

/-- Iterations are traced under their numbers, with what they sampled and how; what a search comes
to is for debugging. -/
structure Reports [Log.Loggable ε] (scheme : Scheme α ε σ) (event : Nat → α → α → κ → ε)
    (kind : σ → κ) : Prop where
  stepped : ∀ s i p, scheme.stepped s i p = event i p.x p.y (kind s)
  traced : ∀ i x fx kind, (Log.Loggable.record (event i x fx kind)).level = .trace
  converged : ∀ p counters, (Log.Loggable.record (scheme.converged p counters)).level = .debug
  limit : ∀ i p, (Log.Loggable.record (scheme.limit i p)).level = .debug

variable [Log.Loggable ε] {plan : Plan α ε κ} {kind : σ → κ}

/-- However a loop ends after `k` iterations, the plan has such an ending. -/
theorem closes_of_ends (reports : scheme.Reports plan.event kind)
    (counters : t.2 = ⟨k, plan.opening.length + k, 0⟩)
    (asks : k ≤ plan.budget → ¬ scheme.settled t.1 → plan.asks k (scheme.target t.1) (kind t.1))
    {closing : Run (SearchEntry α ε) (Failure α) (Solution α)}
    (ends : (scheme.loop f plan.budget).Ends plan.budget k t closing) :
    plan.Closes f (plan.opening.length + k) k closing := by
  cases ends with
  | finished _ settled =>
      rw [Nat.add_comm plan.opening.length] at counters
      show plan.Closes f _ k ⟨_, .ok ⟨_, _, t.2⟩⟩
      rw [counters]
      exact .found rfl (reports.converged _ _)
  | exhausted => exact .exhausted rfl (reports.limit _ _) rfl
  | failed lt more failed =>
      obtain ⟨raised, trace⟩ := step_error failed
      rw [counters] at raised trace
      rw [trace]
      exact .cutOff (.inr ⟨k, _, rfl, asks (Nat.le_of_lt lt) more⟩) raised

/-- A loop that starts with the calls of a plan's opening keeps to the plan. -/
theorem follows (reports : scheme.Reports plan.event kind) {calls : List (Sample α)}
    (opening : calls.map Sample.x = plan.opening) (answers : f.Answers calls)
    (counted : s.2 = ⟨0, calls.length, 0⟩)
    (asks : ∀ k inner t, k ≤ plan.budget → (scheme.loop f plan.budget).Leads s k inner t →
      ¬ scheme.settled t.1 → plan.asks k (scheme.target t.1) (kind t.1)) :
    plan.Follows f
      (((scheme.loop f plan.budget).run plan.budget s).after (calls.map Sample.entry)) := by
  obtain ⟨k, inner, t, closing, leads, ends, eq⟩ :=
    (scheme.loop f plan.budget).run_ends plan.budget s
  obtain ⟨visits, rfl, same, each⟩ := leads_visits reports.stepped leads
  have opened : calls.length = plan.opening.length := by rw [← opening, List.length_map]
  have counters : t.2 = ⟨visits.length, plan.opening.length + visits.length, 0⟩ := by
    rw [leads_counters leads, counted, opened, Nat.zero_add]
  refine ⟨calls, visits, closing, ?course, ?opening, fun _ => opening, reports.traced, ?asked,
    ?answers, ?closes⟩
  case course => rw [eq, Run.after_after, same, counted]
  case opening => exact opening ▸ List.prefix_rfl
  case asked =>
    intro i v at_i
    obtain ⟨earlier, u, leads', more, same_kind, gives⟩ := each i v at_i
    obtain ⟨lt, -⟩ := List.getElem?_eq_some_iff.mp at_i
    rw [gives.at_point, same_kind]
    exact asks i earlier u (Nat.le_trans (Nat.le_of_lt lt) ends.le) leads' more
  case answers =>
    apply forall_getElem?_append answers
    intro i p at_i
    rw [List.getElem?_map] at at_i
    obtain ⟨v, at_v, rfl⟩ := Option.map_eq_some_iff.mp at_i
    obtain ⟨_, _, -, -, -, gives⟩ := each i v at_v
    rw [counted] at gives
    exact gives.at_point ▸ gives
  case closes =>
    rw [opened]
    exact closes_of_ends reports counters (fun le more => asks _ inner t le leads more) ends

end Scheme

end Nonlinear
