import Nonlinear.Proofs.Loop

/-! # Runs that look alike

A run that keeps more in its results and entries than can be seen is compared with one that
does not.  An observation maps the entries of the first to those of the second, and results
are compared by a relation; what one does the other then does too, failures included.
-/

namespace Nonlinear.Run

variable {ε ε' δ β β' γ γ' : Type}

/-- The same failure, or related results. -/
inductive Alike (related : β → β' → Prop) : Except δ β → Except δ β' → Prop where
  | ok {b b'} : related b b' → Alike related (.ok b) (.ok b')
  | error (e : δ) : Alike related (.error e) (.error e)

theorem Alike.of_eq (outcome : Except δ β) : Alike Eq outcome outcome := by
  cases outcome with
  | ok b => exact .ok rfl
  | error e => exact .error e

theorem Alike.eq {outcome outcome' : Except δ β} (h : Alike Eq outcome outcome') :
    outcome = outcome' := by
  cases h with
  | ok same => rw [same]
  | error => rfl

/-- Observed, the first run is the second one. -/
structure Simulates (observe : ε → ε') (related : β → β' → Prop) (r : Run ε δ β)
    (r' : Run ε' δ β') : Prop where
  trace : r.trace.map observe = r'.trace
  outcome : Alike related r.outcome r'.outcome

namespace Simulates

variable {observe : ε → ε'} {related : β → β' → Prop} {later : γ → γ' → Prop}
  {r : Run ε δ β} {r' : Run ε' δ β'}

theorem pure {b : β} {b' : β'} (h : related b b') :
    Simulates observe related (δ := δ) ⟨[], .ok b⟩ ⟨[], .ok b'⟩ :=
  ⟨rfl, .ok h⟩

theorem fail (e : δ) :
    Simulates observe related (Run.fail e : Run ε δ β) (Run.fail e : Run ε' δ β') :=
  ⟨rfl, .error e⟩

theorem ofExcept (outcome : Except δ β) :
    Simulates observe Eq (Run.ofExcept outcome) (Run.ofExcept outcome) :=
  ⟨rfl, .of_eq outcome⟩

theorem note (entry : ε) :
    Simulates observe Eq (Run.note entry : Run ε δ Unit) (Run.note (observe entry)) :=
  ⟨rfl, .ok rfl⟩

theorem ite {c : Prop} [Decidable c] {s : Run ε δ β} {s' : Run ε' δ β'}
    (yes : Simulates observe related r r') (no : Simulates observe related s s') :
    Simulates observe related (if c then r else s) (if c then r' else s') := by
  split
  · exact yes
  · exact no

theorem bind (h : Simulates observe related r r') {next : β → Run ε δ γ}
    {next' : β' → Run ε' δ γ'}
    (then_alike : ∀ b b', related b b' → Simulates observe later (next b) (next' b')) :
    Simulates observe later (r.bind next) (r'.bind next') := by
  obtain ⟨trace, outcome⟩ := r
  obtain ⟨trace', outcome'⟩ := r'
  obtain ⟨same, alike⟩ := h
  cases alike with
  | error e => exact ⟨same, .error e⟩
  | ok rel =>
      obtain ⟨more, alike⟩ := then_alike _ _ rel
      refine ⟨?_, alike⟩
      show List.map observe (trace ++ _) = trace' ++ _
      rw [List.map_append, more]
      exact congrArg (· ++ _) same

/-- The second run may still change its result. -/
theorem andThen (h : Simulates observe related r r') {change : β' → γ'} {later : β → γ' → Prop}
    (changed : ∀ b b', related b b' → later b (change b')) :
    Simulates observe later r (r'.bind fun b' => ⟨[], .ok (change b')⟩) := by
  rw [← bind_pure r]
  exact h.bind fun b b' rel => pure (changed b b' rel)

theorem eq_outcome {r : Run ε δ β} {r' : Run ε' δ β} (h : Simulates observe Eq r r') :
    r.outcome = r'.outcome :=
  h.outcome.eq

end Simulates

end Nonlinear.Run
