import Nonlinear.Proofs.Loop

/-! # Alarms

Some entries of a trace are bad news: a call that failed, a value that is of no use.  A run that
heeds its alarms stops at the first of them and fails with what it says.  Runs made of such runs
are such runs themselves, however often a loop goes round.
-/

namespace Nonlinear

namespace Run

variable {ε δ β γ : Type} {alarm : ε → Option δ} {r : Run ε δ β}

/-- An entry that raises an alarm is the last one, and the failure is the one it raises. -/
def Heeds (alarm : ε → Option δ) (r : Run ε δ β) : Prop :=
  ∀ before entry later failure, r.trace = before ++ entry :: later →
    alarm entry = some failure → later = [] ∧ r.outcome = .error failure

theorem Heeds.quiet_of_ok {b : β} (h : r.Heeds alarm) (ok : r.outcome = .ok b) :
    ∀ entry ∈ r.trace, alarm entry = none := by
  intro entry mem
  obtain ⟨before, later, split⟩ := List.append_of_mem mem
  cases raised : alarm entry with
  | none => rfl
  | some failure =>
      obtain ⟨-, error⟩ := h before entry later failure split raised
      rw [ok] at error
      cases error

theorem heeds_of_quiet (quiet : ∀ entry ∈ r.trace, alarm entry = none) : r.Heeds alarm := by
  intro before entry later failure split raised
  have mem : entry ∈ r.trace := by
    rw [split]
    exact List.mem_append_right before List.mem_cons_self
  rw [quiet entry mem] at raised
  cases raised

theorem heeds_singleton {entry : ε} {outcome : Except δ β}
    (h : ∀ failure, alarm entry = some failure → outcome = .error failure) :
    (⟨[entry], outcome⟩ : Run ε δ β).Heeds alarm := by
  intro before entry' later failure split raised
  cases before with
  | nil =>
      cases split
      exact ⟨rfl, h failure raised⟩
  | cons first before => simp at split

theorem heeds_nil (outcome : Except δ β) : (⟨[], outcome⟩ : Run ε δ β).Heeds alarm :=
  heeds_of_quiet fun _ mem => absurd mem List.not_mem_nil

theorem heeds_ite {p : Prop} [Decidable p] {r' : Run ε δ β} (h : r.Heeds alarm)
    (h' : r'.Heeds alarm) : (if p then r else r').Heeds alarm := by
  split
  · exact h
  · exact h'

theorem Heeds.after {trace : List ε} (quiet : ∀ entry ∈ trace, alarm entry = none)
    (h : r.Heeds alarm) : (r.after trace).Heeds alarm := by
  intro before entry later failure split raised
  rcases List.append_eq_append_iff.mp split with ⟨more, rfl, inner⟩ | ⟨more, same, inner⟩
  · exact h more entry later failure inner raised
  · cases more with
    | nil => exact h [] entry later failure inner.symm raised
    | cons first more =>
        cases inner
        have mem : entry ∈ trace := by
          rw [same]
          exact List.mem_append_right before List.mem_cons_self
        rw [quiet entry mem] at raised
        cases raised

theorem Heeds.bind {next : β → Run ε δ γ} (h : r.Heeds alarm)
    (following : ∀ b, r.outcome = .ok b → (next b).Heeds alarm) : (r.bind next).Heeds alarm := by
  cases outcome : r.outcome with
  | error e =>
      rw [bind_error outcome]
      intro before entry later failure split raised
      obtain ⟨last, same⟩ := h before entry later failure split raised
      rw [outcome] at same
      cases same
      exact ⟨last, rfl⟩
  | ok b =>
      rw [bind_of_ok outcome]
      exact (following b outcome).after (h.quiet_of_ok outcome)

theorem Heeds.note_bind {entry : ε} {next : Unit → Run ε δ β} (quiet : alarm entry = none)
    (h : (next ()).Heeds alarm) : ((note entry).bind next).Heeds alarm := by
  refine Heeds.bind (heeds_singleton ?_) fun _ _ => h
  intro failure raised
  rw [quiet] at raised
  cases raised

end Run

/-- A loop heeds the alarms that its steps and its endings heed. -/
theorem Loop.run_heeds {ε δ σ β : Type} {alarm : ε → Option δ} {loop : Loop ε δ σ β}
    (finish : ∀ s, (loop.finish s).Heeds alarm) (giveUp : ∀ s, (loop.giveUp s).Heeds alarm)
    (step : ∀ s, (loop.step s).Heeds alarm) (n : Nat) (s : σ) : (loop.run n s).Heeds alarm := by
  induction n generalizing s with
  | zero =>
      rw [run]
      split
      · exact finish s
      · exact giveUp s
  | succ n ih =>
      rw [run]
      split
      · exact finish s
      · exact (step s).bind fun t _ => ih t

end Nonlinear
