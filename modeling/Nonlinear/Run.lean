/-! # Runs

A solver is watched while it works: which points it asked for, what it was told, what it
reported.  A `Run` keeps those entries in order beside the outcome, so that a statement about
the course of a computation is a statement about a list.
-/

namespace Nonlinear

/-- A computation with entries `ε`, failures `δ` and results `β`. -/
structure Run (ε δ β : Type) where
  trace : List ε
  outcome : Except δ β

namespace Run

variable {ε δ β γ : Type}

def note (entry : ε) : Run ε δ Unit := ⟨[entry], .ok ()⟩

/-- End the computation here. -/
def fail (failure : δ) : Run ε δ β := ⟨[], .error failure⟩

def ofExcept (outcome : Except δ β) : Run ε δ β := ⟨[], outcome⟩

/-- What follows a failure is never run. -/
def bind (r : Run ε δ β) (next : β → Run ε δ γ) : Run ε δ γ :=
  match r.outcome with
  | .ok b => ⟨r.trace ++ (next b).trace, (next b).outcome⟩
  | .error e => ⟨r.trace, .error e⟩

instance : Monad (Run ε δ) where
  pure b := ⟨[], .ok b⟩
  bind := bind

@[simp]
theorem bind_eq (r : Run ε δ β) (next : β → Run ε δ γ) : r >>= next = r.bind next := rfl

theorem bind_ok {r : Run ε δ β} {b : β} (h : r.outcome = .ok b) (next : β → Run ε δ γ) :
    r.bind next = ⟨r.trace ++ (next b).trace, (next b).outcome⟩ := by
  simp [bind, h]

theorem bind_error {r : Run ε δ β} {e : δ} (h : r.outcome = .error e)
    (next : β → Run ε δ γ) : r.bind next = ⟨r.trace, .error e⟩ := by
  simp [bind, h]

@[simp]
theorem fail_bind (e : δ) (next : β → Run ε δ γ) : (fail e : Run ε δ β).bind next = fail e :=
  rfl

@[simp]
theorem note_bind (entry : ε) (next : Unit → Run ε δ γ) :
    (note entry).bind next = ⟨entry :: (next ()).trace, (next ()).outcome⟩ := rfl

end Run

end Nonlinear
