import Nonlinear.Proofs.Loop

/-! # Loops that continue others

Two loops may make the same steps without stopping at the same states.  The one that stops less
often goes through every state of the other, and on from its last one if that was no failure.
-/

namespace Nonlinear.Loop

variable {ε δ σ β : Type} {loop long short : Loop ε δ σ β} {s t u : σ} {j k m n : Nat}
  {trace trace' : List ε}

/-- An unfinished passage has come through a state after any smaller number of steps. -/
theorem Leads.earlier (h : loop.Leads s k trace t) (more : ¬ loop.done t) (le : j ≤ k) :
    ∃ front u, loop.Leads s j front u ∧ ¬ loop.done u ∧ front <+: trace := by
  induction h with
  | here =>
      obtain rfl := Nat.le_zero.mp le
      exact ⟨[], s, .here, more, List.prefix_refl []⟩
  | @next k inner t u before further ok ih =>
      rcases Nat.lt_or_eq_of_le le with lt | rfl
      · obtain ⟨front, v, leads, unfinished, within⟩ := ih further (Nat.le_of_lt_succ lt)
        exact ⟨front, v, leads, unfinished, within.trans (List.prefix_append inner _)⟩
      · exact ⟨_, u, .next before further ok, more, List.prefix_refl _⟩

theorem Leads.before (h : loop.Leads s k trace t) (lt : j < k) :
    ∃ front u, loop.Leads s j front u ∧ ¬ loop.done u ∧ front <+: trace := by
  cases h with
  | here => exact absurd lt (Nat.not_lt_zero j)
  | next passage more _ =>
      obtain ⟨front, u, leads, unfinished, within⟩ := passage.earlier more (Nat.le_of_lt_succ lt)
      exact ⟨front, u, leads, unfinished, within.trans (List.prefix_append _ _)⟩

/-- A passage to a good enough state has no more steps than any other from the same state. -/
theorem Leads.le_of_done (h : loop.Leads s k trace t) (h' : loop.Leads s j trace' u)
    (good : loop.done u) : k ≤ j := by
  apply Nat.le_of_not_lt
  intro lt
  obtain ⟨_, v, leads, unfinished, _⟩ := h.before lt
  obtain ⟨_, rfl⟩ := leads.unique h'
  exact unfinished good

/-- A run ends with the step that fails, whatever is left of its budget. -/
theorem run_of_failed {e : δ} (h : loop.Leads s k trace t) (more : ¬ loop.done t)
    (fails : (loop.step t).outcome = .error e) (lt : k < n) :
    loop.run n s = Run.after trace ⟨(loop.step t).trace, .error e⟩ := by
  obtain ⟨m, rfl⟩ := Nat.exists_eq_add_of_lt lt
  rw [Nat.add_assoc, run_of_leads h, run_succ more, Run.bind_error fails]

theorem run_of_finished (h : loop.Leads s k trace t) (good : loop.done t) (le : k ≤ n) :
    loop.run n s = (loop.finish t).after trace := by
  obtain ⟨m, rfl⟩ := Nat.exists_eq_add_of_le le
  rw [run_of_leads h, run_of_done good]

theorem run_of_exhausted (h : loop.Leads s n trace t) (more : ¬ loop.done t) :
    loop.run n s = (loop.giveUp t).after trace := by
  have stays := run_of_leads h 0
  simp [run, more] at stays
  exact stays

/-- The loop `long` makes the steps of `short`, and stops at none of the states at which `short`
goes on. -/
structure Continues (long short : Loop ε δ σ β) : Prop where
  step_eq : ∀ s, long.step s = short.step s
  done_of_done : ∀ s, long.done s → short.done s

namespace Continues

theorem leads (h : long.Continues short) (passage : short.Leads s k trace t) :
    long.Leads s k trace t := by
  induction passage with
  | here => exact .here
  | @next k inner t u _ more ok ih =>
      rw [← h.step_eq t] at ok ⊢
      exact .next ih (fun good => more (h.done_of_done t good)) ok

/-- Either the short loop ends in a step that fails, and then so does the long one; or both come
to the state at which the short one stops. -/
theorem run_cases (h : long.Continues short) (n : Nat) (s : σ) :
    (∃ e, (short.run n s).outcome = .error e ∧
      ∀ m, n ≤ m → long.run m s = short.run n s) ∨
    ∃ k trace t, k ≤ n ∧ short.Leads s k trace t ∧ long.Leads s k trace t ∧
      (short.done t ∧ short.run n s = (short.finish t).after trace ∨
        k = n ∧ ¬ short.done t ∧ short.run n s = (short.giveUp t).after trace) := by
  obtain ⟨k, trace, t, r, passage, ends, eq⟩ := short.run_ends n s
  cases ends with
  | finished le good =>
      exact .inr ⟨k, trace, t, le, passage, h.leads passage, .inl ⟨good, eq⟩⟩
  | exhausted bad =>
      exact .inr ⟨_, trace, t, Nat.le_refl _, passage, h.leads passage, .inr ⟨rfl, bad, eq⟩⟩
  | failed lt bad fails =>
      left
      refine ⟨_, by rw [eq]; rfl, ?_⟩
      intro m le
      have goesOn : ¬ long.done t := fun good => bad (h.done_of_done t good)
      rw [eq, run_of_failed (h.leads passage) goesOn ((h.step_eq t).symm ▸ fails)
        (Nat.lt_of_lt_of_le lt le), h.step_eq]

end Continues

end Nonlinear.Loop
