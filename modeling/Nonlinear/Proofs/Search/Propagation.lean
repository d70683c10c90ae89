import Nonlinear.Proofs.Alarm
import Nonlinear.Proofs.Minimum.Course
import Nonlinear.Proofs.Root.Course

/-! # Failing calls in the scalar searches

A call of a scalar function fails if the function reports an error, and also if its value is not
finite.  Neither search goes on after that, so all samples that it works with are finite.
-/

namespace Nonlinear

open Scalar

variable {α ε : Type} [Scalar α]

/-- What a call means for the search that makes it, if it fails. -/
def SearchEntry.alarm : SearchEntry α ε → Option (Failure α)
  | call _ (.error e) => some (.evaluation (.reported e))
  | call x (.ok y) => if isFinite y then none else some (.evaluation (.nonFiniteValue x))
  | event _ => none

/-- The run rejects its input, and has done nothing else. -/
def Run.Rejects {β : Type} (r : Run ε (Failure α) β) : Prop := ∃ defect, r = fail (.input defect)

omit [Scalar α] in
theorem Run.not_rejects_of_bind {β γ : Type} {r : Run ε (Failure α) β}
    (begun : r.trace ≠ []) (next : β → Run ε (Failure α) γ) : ¬ (r.bind next).Rejects := by
  rintro ⟨defect, same⟩
  cases outcome : r.outcome with
  | error e =>
      rw [bind_error outcome] at same
      exact begun (congrArg Run.trace same)
  | ok b =>
      rw [bind_of_ok outcome] at same
      exact begun (List.append_eq_nil_iff.mp (congrArg Run.trace same)).1

theorem ScalarFunction.sample_error_iff {f : ScalarFunction α} {k : Nat} {x : α}
    {failure : Failure α} :
    (f.sample k x : Run (SearchEntry α ε) (Failure α) (Sample α)).outcome = .error failure ↔
      SearchEntry.alarm (.call x (f k x) : SearchEntry α ε) = some failure := by
  cases answer : f k x with
  | error e => simp [sample, SearchEntry.alarm, answer]
  | ok y => by_cases finite : isFinite y = true <;> simp [sample, SearchEntry.alarm, answer, finite]

theorem ScalarFunction.sample_heeds (f : ScalarFunction α) (k : Nat) (x : α) :
    (f.sample k x : Run (SearchEntry α ε) (Failure α) (Sample α)).Heeds SearchEntry.alarm :=
  Run.heeds_singleton fun _ => sample_error_iff.mpr

theorem Scheme.run_heeds {σ : Type} (scheme : Scheme α ε σ) (f : ScalarFunction α)
    (budget n : Nat) (s : σ × Counters) :
    ((scheme.loop f budget).run n s).Heeds SearchEntry.alarm := by
  apply Loop.run_heeds
  case finish =>
    intro s
    exact Run.heeds_singleton fun _ raised => by cases raised
  case giveUp =>
    intro s
    exact Run.heeds_singleton fun _ raised => by cases raised
  case step =>
    intro s
    exact (f.sample_heeds _ _).bind fun p _ => Run.heeds_singleton fun _ raised => by cases raised

namespace Root

def Bracket.Finite (s : Bracket α) : Prop :=
  isFinite s.previous.y = true ∧ isFinite s.best.y = true ∧ isFinite s.counter.y = true

variable (config : SearchConfig α) (f : ScalarFunction α) (a b : α)

theorem search_heeds : (search config f a b).Heeds SearchEntry.alarm := by
  by_cases admits : Admits config a b
  case neg =>
    obtain ⟨defect, rejects⟩ := search_of_not_admits admits
    rw [rejects config f rfl]
    exact Run.heeds_nil _
  rw [admits.search_eq]
  refine (f.sample_heeds 1 a).bind fun p _ => (f.sample_heeds 2 b).bind fun q _ => ?_
  have quiet {e : Event α} {outcome : Except (Failure α) (Solution α)} :
      (⟨[.event e], outcome⟩ : Course α (Solution α)).Heeds SearchEntry.alarm :=
    Run.heeds_singleton fun _ raised => by cases raised
  exact Run.heeds_ite quiet (Run.heeds_ite quiet (Run.heeds_ite quiet
    ((scheme config).run_heeds f _ _ _)))

theorem search_rejects_iff : (search config f a b).Rejects ↔
    isFinite a = false ∨ isFinite b = false ∨ config.validate ≠ .ok () := by
  rw [← not_admits_iff]
  constructor
  · intro rejects admits
    rw [admits.search_eq] at rejects
    exact Run.not_rejects_of_bind (List.cons_ne_nil _ _) _ rejects
  · intro rejected
    obtain ⟨defect, rejects⟩ := search_of_not_admits rejected
    exact ⟨defect, rejects config f rfl⟩

variable {config f a b}

theorem Reaches.finite {k : Nat} {trace : List (SearchEntry α (Event α))}
    {t : Bracket α × Counters} (h : Reaches config f a b k trace t) : t.1.Finite := by
  refine Scheme.Reaches.invariant (P := fun _ s => s.Finite) ?_ ?_ h
  · rintro _ _ ⟨p, q, opens, -, rfl⟩
    exact ⟨opens.left.finite, opens.right.finite, opens.left.finite⟩
  · intro k trace more s p _ ⟨previous, best, counter⟩ _ gives _
    have kept : s.1.keepBest.Finite := by
      unfold Bracket.keepBest
      split
      · exact ⟨best, counter, best⟩
      · exact ⟨previous, best, counter⟩
    refine ⟨kept.2.1, gives.finite, ?_⟩
    show isFinite (s.1.keepBest.advance p).counter.y = true
    dsimp only [Bracket.advance]
    split
    · exact kept.2.1
    · exact kept.2.2

end Root

namespace Minimum

def Interval.Finite (s : Interval α) : Prop :=
  isFinite s.best.y = true ∧ isFinite s.second.y = true ∧ isFinite s.third.y = true

variable (config : SearchConfig α) (f : ScalarFunction α) (a b : α)

theorem search_heeds : (search config f a b).Heeds SearchEntry.alarm := by
  by_cases admits : Admits config a b
  case neg =>
    obtain ⟨defect, rejects⟩ := search_of_not_admits admits
    rw [rejects config f rfl]
    exact Run.heeds_nil _
  rw [admits.search_eq]
  exact (f.sample_heeds 1 _).bind fun p _ => (scheme config).run_heeds f _ _ _

theorem search_rejects_iff : (search config f a b).Rejects ↔
    isFinite a = false ∨ isFinite b = false ∨ (a == b) = true ∨ config.validate ≠ .ok () := by
  rw [← not_admits_iff]
  constructor
  · intro rejects admits
    rw [admits.search_eq] at rejects
    exact Run.not_rejects_of_bind (List.cons_ne_nil _ _) _ rejects
  · intro rejected
    obtain ⟨defect, rejects⟩ := search_of_not_admits rejected
    exact ⟨defect, rejects config f rfl⟩

variable {config f a b}

theorem Interval.Finite.update {s : Interval α} {p : Sample α} (h : s.Finite)
    (finite : isFinite p.y = true) : (s.update p).Finite := by
  obtain ⟨best, second, third⟩ := h
  by_cases le : p.y ≤ s.best.y
  · rw [update_of_le le]
    exact ⟨finite, best, second⟩
  · rw [Interval.Finite, (update_of_not_le le).2.2]
    rcases update_others le with ⟨-, same, same'⟩ | ⟨-, same, same' | same'⟩
    all_goals rw [same, same']
    · exact ⟨best, finite, second⟩
    · exact ⟨best, second, finite⟩
    · exact ⟨best, second, third⟩

theorem Reaches.finite {k : Nat} {trace : List (SearchEntry α (Event α))}
    {t : Interval α × Counters} (h : Reaches config f a b k trace t) : t.1.Finite := by
  refine Scheme.Reaches.invariant (P := fun _ s => s.Finite) ?_ ?_ h
  · rintro _ _ ⟨p, opens, -, rfl⟩
    exact ⟨opens.first.finite, opens.first.finite, opens.first.finite⟩
  · intro k trace more s p _ holds _ gives _
    exact holds.update gives.finite

end Minimum

end Nonlinear
