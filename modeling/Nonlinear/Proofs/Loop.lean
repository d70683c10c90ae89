import Nonlinear.Run

/-! # Loops with a budget

Every solver repeats one step until its state is good enough or its budget is used up.  `Leads`
names the states such a loop passes through, with the trace left so far, and `run_ends` says
that every run is a passage of this kind followed by one of three endings.
-/

namespace Nonlinear

namespace Run

variable {ε δ β γ ι : Type}

/-- The run with some earlier entries before its own. -/
def after (trace : List ε) (r : Run ε δ β) : Run ε δ β := ⟨trace ++ r.trace, r.outcome⟩

@[simp]
theorem after_trace (trace : List ε) (r : Run ε δ β) :
    (r.after trace).trace = trace ++ r.trace := rfl

@[simp]
theorem after_outcome (trace : List ε) (r : Run ε δ β) : (r.after trace).outcome = r.outcome :=
  rfl

@[simp]
theorem after_nil (r : Run ε δ β) : r.after [] = r := rfl

theorem after_after (first second : List ε) (r : Run ε δ β) :
    (r.after second).after first = r.after (first ++ second) := by
  simp [after]

theorem bind_assoc (r : Run ε δ β) (f : β → Run ε δ γ) (g : γ → Run ε δ ι) :
    (r.bind f).bind g = r.bind fun b => (f b).bind g := by
  obtain ⟨trace, outcome⟩ := r
  cases outcome with
  | error e => rfl
  | ok b =>
      simp only [bind]
      cases (f b).outcome with
      | error e => rfl
      | ok c => simp only [List.append_assoc]

theorem bind_pure (r : Run ε δ β) : (r.bind fun b => ⟨[], .ok b⟩) = r := by
  obtain ⟨trace, outcome⟩ := r
  cases outcome with
  | error e => rfl
  | ok b => simp only [bind, List.append_nil]

theorem bind_of_ok {r : Run ε δ β} {b : β} (h : r.outcome = .ok b) (next : β → Run ε δ γ) :
    r.bind next = (next b).after r.trace :=
  bind_ok h next

theorem bind_congr {r : Run ε δ β} {next next' : β → Run ε δ γ}
    (same : ∀ b, r.outcome = .ok b → next b = next' b) : r.bind next = r.bind next' := by
  cases outcome : r.outcome with
  | error e => rw [bind_error outcome, bind_error outcome]
  | ok b => rw [bind_of_ok outcome, bind_of_ok outcome, same b outcome]

theorem bind_outcome_congr {r : Run ε δ β} {next next' : β → Run ε δ γ}
    (same : ∀ b, (next b).outcome = (next' b).outcome) :
    (r.bind next).outcome = (r.bind next').outcome := by
  cases outcome : r.outcome with
  | error e => rw [bind_error outcome, bind_error outcome]
  | ok b => rw [bind_of_ok outcome, bind_of_ok outcome, after_outcome, after_outcome, same]

theorem bind_trace_prefix (r : Run ε δ β) (next : β → Run ε δ γ) :
    r.trace <+: (r.bind next).trace := by
  cases outcome : r.outcome with
  | error e => exact ⟨[], by rw [bind_error outcome, List.append_nil]⟩
  | ok b => exact ⟨(next b).trace, by rw [bind_of_ok outcome, after_trace]⟩

theorem ok_of_toOption {r : Run ε δ β} {b : β} (h : r.outcome.toOption = some b) :
    r.outcome = .ok b := by
  cases ok : r.outcome with
  | error e =>
      rw [ok] at h
      cases h
  | ok c =>
      rw [ok] at h
      cases h
      rfl

theorem ok_of_bind {r : Run ε δ β} {next : β → Run ε δ γ} {c : γ}
    (h : (r.bind next).outcome = .ok c) :
    ∃ b, r.outcome = .ok b ∧ r.bind next = (next b).after r.trace ∧ (next b).outcome = .ok c := by
  cases ok : r.outcome with
  | error e =>
      rw [bind_error ok] at h
      cases h
  | ok b =>
      refine ⟨b, rfl, bind_of_ok ok next, ?_⟩
      rw [bind_of_ok ok] at h
      exact h

end Run

/-- A loop over states `σ`.  Before every step it looks whether the state is good enough. -/
structure Loop (ε δ σ β : Type) where
  done : σ → Prop
  [decidable : DecidablePred done]
  finish : σ → Run ε δ β
  /-- What is answered without a good enough state. -/
  giveUp : σ → Run ε δ β
  step : σ → Run ε δ σ

namespace Loop

variable {ε δ σ β : Type}

instance (loop : Loop ε δ σ β) : DecidablePred loop.done := loop.decidable

def run (loop : Loop ε δ σ β) : (budget : Nat) → σ → Run ε δ β
  | 0, s => if loop.done s then loop.finish s else loop.giveUp s
  | n + 1, s => if loop.done s then loop.finish s else (loop.step s).bind (loop.run n)

/-- `k` steps lead from one state to another and leave a trace. -/
inductive Leads (loop : Loop ε δ σ β) (s : σ) : (k : Nat) → List ε → σ → Prop where
  | here : Leads loop s 0 [] s
  | next {k trace t u} : Leads loop s k trace t → ¬ loop.done t →
      (loop.step t).outcome = .ok u → Leads loop s (k + 1) (trace ++ (loop.step t).trace) u

/-- How a loop with a given budget ends in a state that it comes to after `k` steps. -/
inductive Ends (loop : Loop ε δ σ β) (budget : Nat) : (k : Nat) → σ → Run ε δ β → Prop where
  | finished {k t} : k ≤ budget → loop.done t → Ends loop budget k t (loop.finish t)
  | exhausted {t} : ¬ loop.done t → Ends loop budget budget t (loop.giveUp t)
  | failed {k t e} : k < budget → ¬ loop.done t → (loop.step t).outcome = .error e →
      Ends loop budget k t ⟨(loop.step t).trace, .error e⟩

variable {loop : Loop ε δ σ β} {s t u : σ} {k n : Nat} {trace : List ε}

theorem run_of_done (h : loop.done s) (n : Nat) : loop.run n s = loop.finish s := by
  cases n <;> simp [run, h]

theorem run_succ (h : ¬ loop.done s) (n : Nat) :
    loop.run (n + 1) s = (loop.step s).bind (loop.run n) := by
  simp [run, h]

theorem Leads.head (more : ¬ loop.done s) (step : (loop.step s).outcome = .ok t)
    (h : loop.Leads t k trace u) : loop.Leads s (k + 1) ((loop.step s).trace ++ trace) u := by
  induction h with
  | here => simpa using Leads.next .here more step
  | next _ further ok ih =>
      rw [← List.append_assoc]
      exact .next ih further ok

theorem Leads.unique {trace' : List ε} {t' : σ} (h : loop.Leads s k trace t)
    (h' : loop.Leads s k trace' t') : trace = trace' ∧ t = t' := by
  induction h generalizing trace' t' with
  | here => cases h' with | here => exact ⟨rfl, rfl⟩
  | next _ _ ok ih =>
      cases h' with
      | next earlier _ ok' =>
          obtain ⟨rfl, rfl⟩ := ih earlier
          rw [ok] at ok'
          cases ok'
          exact ⟨rfl, rfl⟩

/-- The states that a passage goes through. -/
theorem Leads.states (h : loop.Leads s k trace t) : ∃ u : Nat → σ, u 0 = s ∧ u k = t ∧
    ∀ j < k, ¬ loop.done (u j) ∧ (loop.step (u j)).outcome = .ok (u (j + 1)) := by
  induction h with
  | here => exact ⟨fun _ => s, rfl, rfl, fun j lt => absurd lt (Nat.not_lt_zero j)⟩
  | @next k _ t v _ more ok ih =>
      obtain ⟨u, first, last, between⟩ := ih
      refine ⟨fun j => if j ≤ k then u j else v, ?_, ?_, ?_⟩
      · simp [first]
      · simp [Nat.not_succ_le_self k]
      · intro j lt
        rcases Nat.lt_succ_iff_lt_or_eq.mp lt with lt | rfl
        · simpa [Nat.le_of_lt lt, Nat.succ_le_of_lt lt] using between j lt
        · simpa [last, Nat.not_succ_le_self j] using ⟨more, ok⟩

/-- The state after `k` steps, unless the loop ends before. -/
def stateAfter (loop : Loop ε δ σ β) : (k : Nat) → σ → Option σ
  | 0, s => some s
  | k + 1, s =>
    if loop.done s then none else (loop.step s).outcome.toOption.bind (loop.stateAfter k)

theorem leads_of_stateAfter (h : loop.stateAfter k s = some t) :
    ∃ trace, loop.Leads s k trace t := by
  induction k generalizing s with
  | zero =>
      cases h
      exact ⟨[], .here⟩
  | succ k ih =>
      rw [stateAfter] at h
      split at h
      · cases h
      · obtain ⟨u, step, rest⟩ := Option.bind_eq_some_iff.mp h
        obtain ⟨trace, leads⟩ := ih rest
        exact ⟨_, leads.head ‹_› (Run.ok_of_toOption step)⟩

/-- A run goes on from every state it comes to. -/
theorem run_of_leads (h : loop.Leads s k trace t) (n : Nat) :
    loop.run (k + n) s = (loop.run n t).after trace := by
  induction h generalizing n with
  | here => simp
  | next _ more ok ih =>
      rw [Nat.add_assoc, Nat.add_comm 1, ih, run_succ more, Run.bind_of_ok ok, Run.after_after]

theorem Leads.trace_prefix (h : loop.Leads s k trace t) (le : k ≤ n) :
    trace <+: (loop.run n s).trace := by
  obtain ⟨m, rfl⟩ := Nat.exists_eq_add_of_le le
  rw [run_of_leads h]
  exact List.prefix_append _ _

theorem run_ends (n : Nat) (s : σ) : ∃ k trace t r,
    loop.Leads s k trace t ∧ loop.Ends n k t r ∧ loop.run n s = r.after trace := by
  induction n generalizing s with
  | zero =>
      by_cases h : loop.done s
      · exact ⟨0, [], s, _, .here, .finished (Nat.le_refl _) h, by simp [run, h]⟩
      · exact ⟨0, [], s, _, .here, .exhausted h, by simp [run, h]⟩
  | succ n ih =>
      by_cases h : loop.done s
      · exact ⟨0, [], s, _, .here, .finished (Nat.zero_le _) h, by simp [run, h]⟩
      · rw [run_succ h]
        cases ok : (loop.step s).outcome with
        | error e =>
            refine ⟨0, [], s, _, .here, .failed (Nat.succ_pos n) h ok, ?_⟩
            rw [Run.bind_error ok]
            rfl
        | ok t =>
            obtain ⟨k, trace, u, r, leads, ends, eq⟩ := ih t
            refine ⟨k + 1, _, u, r, leads.head h ok, ?_, ?_⟩
            · cases ends with
              | finished le good => exact .finished (Nat.succ_le_succ le) good
              | exhausted bad => exact .exhausted bad
              | failed lt bad bang => exact .failed (Nat.succ_lt_succ lt) bad bang
            · rw [Run.bind_of_ok ok, eq, Run.after_after]

theorem Ends.le {r : Run ε δ β} (h : loop.Ends n k t r) : k ≤ n := by
  cases h with
  | finished le => exact le
  | exhausted => exact Nat.le_refl _
  | failed lt => exact Nat.le_of_lt lt

/-- A run that succeeds has come to a good enough state, if giving up is a failure. -/
theorem finished_of_ok {b : β} (limit : ∀ t, ∃ e, (loop.giveUp t).outcome = .error e)
    (h : (loop.run n s).outcome = .ok b) : ∃ k trace t, k ≤ n ∧ loop.Leads s k trace t ∧
      loop.done t ∧ (loop.finish t).outcome = .ok b := by
  obtain ⟨k, trace, t, r, leads, ends, eq⟩ := loop.run_ends n s
  rw [eq, Run.after_outcome] at h
  cases ends with
  | finished le good => exact ⟨k, trace, t, le, leads, good, h⟩
  | exhausted bad =>
      obtain ⟨e, limit⟩ := limit t
      rw [limit] at h
      cases h
  | failed => cases h

end Loop

end Nonlinear
