import Nonlinear.Proofs.Loop
import Nonlinear.System

/-! # Calls of a system

When a call of a residual or of its Jacobian gives a value, and what it leaves in a trace.
-/

namespace Nonlinear

variable {α ε : Type} {n : Nat}

/-- The entry is not a call in which a function reported an error. -/
def SystemEntry.Answered : SystemEntry α n ε → Prop
  | residual call => call.answer.error = none
  | jacobian _ answer => answer.error = none
  | linear _ _ _ => True
  | event _ => True

instance : DecidablePred (SystemEntry.Answered : SystemEntry α n ε → Prop) := fun entry => by
  cases entry <;> unfold SystemEntry.Answered <;> infer_instance

/-- No function called in the trace reported an error. -/
def Answered (trace : List (SystemEntry α n ε)) : Prop := ∀ entry ∈ trace, entry.Answered

instance (trace : List (SystemEntry α n ε)) : Decidable (Answered trace) := by
  unfold Answered; infer_instance

theorem answered_append {trace more : List (SystemEntry α n ε)} :
    Answered (trace ++ more) ↔ Answered trace ∧ Answered more :=
  List.forall_mem_append

theorem answered_of_bind {δ β γ : Type} {r : Run (SystemEntry α n ε) δ β}
    {next : β → Run (SystemEntry α n ε) δ γ} (h : Answered (r.bind next).trace) :
    Answered r.trace ∧ ∀ b, r.outcome = .ok b → Answered (next b).trace := by
  cases outcome : r.outcome with
  | error e =>
      rw [Run.bind_error outcome] at h
      exact ⟨h, fun b ok => by cases ok⟩
  | ok b =>
      rw [Run.bind_of_ok outcome, Run.after_trace, answered_append] at h
      refine ⟨h.1, fun c ok => ?_⟩
      cases ok
      exact h.2

theorem Written.outcome_of_some {β : Type} {w : Written β} {e : EvaluationError}
    (h : w.error = some e) :
    (w.outcome : Except (Failure α) β) = .error (.evaluation (.reported e)) := by
  rw [outcome, h]

theorem Written.outcome_of_none {β : Type} {w : Written β} (h : w.error = none) :
    (w.outcome : Except (Failure α) β) = .ok w.contents := by
  rw [outcome, h]

theorem Written.outcome_ok_iff {β : Type} {w : Written β} {b : β} :
    (w.outcome : Except (Failure α) β) = .ok b ↔ w = ⟨b, none⟩ := by
  obtain ⟨contents, error⟩ := w
  cases error <;> simp [outcome]

theorem Written.outcome_error {β : Type} {w : Written β} {e : Failure α}
    (h : w.outcome = .error e) : ∃ fault, e = .evaluation fault := by
  obtain ⟨contents, error⟩ := w
  cases error with
  | none => cases h
  | some reported =>
      cases h
      exact ⟨_, rfl⟩

namespace VectorFunction

variable {f : VectorFunction α n} {k : Nat} {x buffer : Vector α n}

theorem call_ok_iff {y : Vector α n} :
    (f.call k x buffer : SystemRun α n ε (Vector α n)).outcome = .ok y ↔
      f k x buffer = ⟨y, none⟩ :=
  Written.outcome_ok_iff

theorem call_of_answered
    (h : Answered (f.call k x buffer : SystemRun α n ε (Vector α n)).trace) :
    ∃ y, (f.call k x buffer : SystemRun α n ε (Vector α n)).outcome = .ok y := by
  have error : (f k x buffer).error = none := h _ List.mem_cons_self
  refine ⟨(f k x buffer).contents, call_ok_iff.mpr ?_⟩
  rw [← error]

end VectorFunction

end Nonlinear
