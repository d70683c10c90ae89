import Nonlinear.Search.Sample

/-! # Samples taken by a search

What one call of a scalar function adds to a trace, and when its answer becomes a sample.
-/

namespace Nonlinear

open Scalar

variable {α ε : Type}

namespace SearchEntry

@[simp]
theorem arguments_call (x : α) (answer : Except EvaluationError α)
    (trace : List (SearchEntry α ε)) :
    arguments (.call x answer :: trace) = x :: arguments trace := rfl

@[simp]
theorem arguments_nil : arguments ([] : List (SearchEntry α ε)) = [] := rfl

@[simp]
theorem arguments_event (e : ε) (trace : List (SearchEntry α ε)) :
    arguments (.event e :: trace) = arguments trace := rfl

@[simp]
theorem arguments_append (trace more : List (SearchEntry α ε)) :
    arguments (trace ++ more) = arguments trace ++ arguments more :=
  List.filterMap_append

@[simp]
theorem arguments_events (events : List ε) :
    arguments (events.map fun e => (.event e : SearchEntry α ε)) = [] := by
  induction events with
  | nil => rfl
  | cons _ _ ih => exact ih

theorem arguments_mono {trace more : List (SearchEntry α ε)} (le : trace <+: more) :
    arguments trace <+: arguments more := by
  obtain ⟨rest, rfl⟩ := le
  simp

theorem mem_arguments_of_bind {δ β γ : Type} {r : Run (SearchEntry α ε) δ β}
    {next : β → Run (SearchEntry α ε) δ γ} {x : α} (h : x ∈ arguments (r.bind next).trace) :
    x ∈ arguments r.trace ∨ ∃ b, r.outcome = .ok b ∧ x ∈ arguments (next b).trace := by
  cases ok : r.outcome with
  | error e =>
      rw [Run.bind_error ok] at h
      exact .inl h
  | ok b =>
      rw [Run.bind_ok ok, arguments_append, List.mem_append] at h
      exact h.imp_right fun later => ⟨b, rfl, later⟩

/-- The samples that the answered calls of a trace gave, in order. -/
def samples (trace : List (SearchEntry α ε)) : List (Sample α) :=
  trace.filterMap fun
    | call x (.ok y) => some ⟨x, y⟩
    | _ => none

@[simp]
theorem samples_nil : samples ([] : List (SearchEntry α ε)) = [] := rfl

@[simp]
theorem samples_event (e : ε) (trace : List (SearchEntry α ε)) :
    samples (.event e :: trace) = samples trace := rfl

@[simp]
theorem samples_append (trace more : List (SearchEntry α ε)) :
    samples (trace ++ more) = samples trace ++ samples more :=
  List.filterMap_append

theorem samples_mono {trace more : List (SearchEntry α ε)} (le : trace <+: more) :
    samples trace <+: samples more := by
  obtain ⟨rest, rfl⟩ := le
  simp

end SearchEntry

/-- The trace has a call at `p.x` that was answered `p.y`. -/
def Sample.Taken (p : Sample α) (trace : List (SearchEntry α ε)) : Prop :=
  .call p.x (.ok p.y) ∈ trace

theorem SearchEntry.mem_samples {p : Sample α} {trace : List (SearchEntry α ε)} :
    p ∈ samples trace ↔ p.Taken trace := by
  unfold samples Sample.Taken
  rw [List.mem_filterMap]
  constructor
  · rintro ⟨entry, mem, gives⟩
    split at gives
    · cases gives
      exact mem
    · cases gives
  · intro taken
    exact ⟨_, taken, rfl⟩

theorem Sample.Taken.append_left {p : Sample α} {trace : List (SearchEntry α ε)}
    (h : p.Taken trace) (more : List (SearchEntry α ε)) : p.Taken (trace ++ more) :=
  List.mem_append_left more h

theorem Sample.Taken.of_prefix {p : Sample α} {trace more : List (SearchEntry α ε)}
    (h : p.Taken trace) (le : trace <+: more) : p.Taken more :=
  le.subset h

namespace ScalarFunction

variable [Scalar α]

/-- The `k`-th call of `f`, at `x`, has the sample `p` for its answer. -/
structure Gives (f : ScalarFunction α) (k : Nat) (x : α) (p : Sample α) : Prop where
  at_point : p.x = x
  answer : f k x = .ok p.y
  finite : isFinite p.y = true

@[simp]
theorem sample_trace (f : ScalarFunction α) (k : Nat) (x : α) :
    (f.sample k x : Run (SearchEntry α ε) (Failure α) (Sample α)).trace = [.call x (f k x)] := rfl

theorem sample_ok_iff {f : ScalarFunction α} {k : Nat} {x : α} {p : Sample α} :
    (f.sample k x : Run (SearchEntry α ε) (Failure α) (Sample α)).outcome = .ok p ↔
      f.Gives k x p := by
  constructor
  · intro h
    cases answer : f k x with
    | error e => simp [sample, answer] at h
    | ok y =>
        simp only [sample, answer] at h
        split at h
        · cases h
          exact ⟨rfl, answer, ‹_›⟩
        · cases h
  · intro ⟨same, answer, finite⟩
    subst same
    simp [sample, answer, finite]

theorem Gives.unique {f : ScalarFunction α} {k : Nat} {x : α} {p q : Sample α}
    (hp : f.Gives k x p) (hq : f.Gives k x q) : p = q := by
  obtain ⟨px, py⟩ := p
  obtain ⟨qx, qy⟩ := q
  have same : (.ok py : Except EvaluationError α) = .ok qy := hp.answer.symm.trans hq.answer
  cases same
  cases hp.at_point.trans hq.at_point.symm
  rfl

theorem Gives.taken {f : ScalarFunction α} {k : Nat} {x : α} {p : Sample α} (h : f.Gives k x p) :
    p.Taken ([.call x (f k x)] : List (SearchEntry α ε)) := by
  simp [Sample.Taken, h.answer, h.at_point]

end ScalarFunction

end Nonlinear
