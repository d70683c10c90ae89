import Nonlinear.Proofs.Loop
import Nonlinear.Solution

/-! # Runs in other words

Two computations may go the same way and only have other names or other units for what they do.
Then the one run is the other in other words, entry by entry up to its failure or its result.  What
follows a run is translated along with it, and a loop is translated if its states are.
-/

namespace Nonlinear

/-- The solution with its value changed. -/
def Solution.mapValue {χ : Type} (g : χ → χ) (s : Solution χ) : Solution χ :=
  { s with value := g s.value }

namespace Run

variable {ε ε' δ δ' β β' γ γ' : Type}

/-- The run in other words. -/
def translate (entry : ε → ε') (failure : δ → δ') (result : β → β') (r : Run ε δ β) :
    Run ε' δ' β' where
  trace := r.trace.map entry
  outcome := match r.outcome with
    | .ok b => .ok (result b)
    | .error e => .error (failure e)

variable {entry : ε → ε'} {failure : δ → δ'} {result : β → β'} {last : γ → γ'}

theorem translate_of_ok {r : Run ε δ β} {b : β} (ok : r.outcome = .ok b) :
    r.translate entry failure result = ⟨r.trace.map entry, .ok (result b)⟩ := by
  simp only [translate, ok]

theorem translate_of_error {r : Run ε δ β} {e : δ} (error : r.outcome = .error e) :
    r.translate entry failure result = ⟨r.trace.map entry, .error (failure e)⟩ := by
  simp only [translate, error]

theorem bind_translate {r : Run ε δ β} {next : β → Run ε δ γ} {next' : β' → Run ε' δ' γ'}
    (same : ∀ b, next' (result b) = (next b).translate entry failure last) :
    (r.translate entry failure result).bind next' =
      (r.bind next).translate entry failure last := by
  cases outcome : r.outcome with
  | error e =>
      rw [translate_of_error outcome, bind_error outcome]
      rfl
  | ok b =>
      rw [translate_of_ok outcome, bind_of_ok outcome, bind_of_ok rfl, same]
      simp only [translate, after, List.map_append]

theorem note_bind_translate (entry : ε → ε') (e : ε) {next : Unit → Run ε δ γ}
    {next' : Unit → Run ε' δ' γ'}
    (same : next' () = (next ()).translate entry failure last) :
    (note (entry e)).bind next' = ((note e).bind next).translate entry failure last := by
  rw [note_bind, note_bind, same]
  rfl

theorem ite_translate {p p' : Prop} [Decidable p] [Decidable p'] {r s : Run ε δ β}
    {r' s' : Run ε' δ' β'} (same : p' ↔ p) (yes : p → r' = r.translate entry failure result)
    (no : ¬ p → s' = s.translate entry failure result) :
    (if p' then r' else s') = (if p then r else s).translate entry failure result := by
  by_cases h : p
  · rw [if_pos h, if_pos (same.mpr h), yes h]
  · rw [if_neg h, if_neg (mt same.mp h), no h]

end Run

/-- A loop that does with translated states what another one does, in other words, runs as the
other one does. -/
theorem Loop.run_translate {ε ε' δ δ' σ σ' β β' : Type} {loop : Loop ε δ σ β}
    {loop' : Loop ε' δ' σ' β'} {entry : ε → ε'} {failure : δ → δ'} {result : β → β'}
    (state : σ → σ') (done : ∀ s, loop'.done (state s) ↔ loop.done s)
    (finish : ∀ s, loop'.finish (state s) = (loop.finish s).translate entry failure result)
    (giveUp : ∀ s, loop'.giveUp (state s) = (loop.giveUp s).translate entry failure result)
    (step : ∀ s, loop'.step (state s) = (loop.step s).translate entry failure state) (n : Nat)
    (s : σ) : loop'.run n (state s) = (loop.run n s).translate entry failure result := by
  induction n generalizing s with
  | zero => exact Run.ite_translate (done s) (fun _ => finish s) fun _ => giveUp s
  | succ n ih =>
      apply Run.ite_translate (done s) fun _ => finish s
      intro _
      rw [step]
      exact Run.bind_translate ih

end Nonlinear
