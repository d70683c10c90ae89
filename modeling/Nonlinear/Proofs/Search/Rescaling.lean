import Nonlinear.Proofs.Loop.Translation
import Nonlinear.Proofs.Search.Course

/-! # Searches for a function with other values

When the values of a function are changed by a map, a search may still go the same way: it is
enough that its states with changed values settle where the old ones do and ask for the same
points.  Then it shows the same course with the values changed.
-/

namespace Nonlinear

open Scalar

variable {α ε σ : Type}

/-- The sample with its value changed. -/
def Sample.mapValue (g : α → α) (p : Sample α) : Sample α := ⟨p.x, g p.y⟩

/-- The function with its values changed; its errors stay. -/
def ScalarFunction.mapValues (g : α → α) (f : ScalarFunction α) : ScalarFunction α :=
  fun k x => (f k x).map g

/-- The entry with its answer changed, or its event. -/
def SearchEntry.mapValues (g : α → α) (event : ε → ε) : SearchEntry α ε → SearchEntry α ε
  | call x answer => call x (answer.map g)
  | .event e => .event (event e)

/-- The failure with the values at the ends of a bracket changed. -/
def Failure.mapValues (g : α → α) : Failure α → Failure α
  | invalidBracket a b fa fb => invalidBracket a b (g fa) (g fb)
  | failure => failure

variable [Scalar α] {g : α → α}

theorem ScalarFunction.sample_mapValues (finite : ∀ y, isFinite (g y) = isFinite y)
    (failure : Failure α → Failure α)
    (faults : ∀ fault, failure (.evaluation fault) = .evaluation fault) (event : ε → ε)
    (f : ScalarFunction α) (k : Nat) (x : α) :
    (f.mapValues g).sample k x =
      (f.sample k x).translate (SearchEntry.mapValues g event) failure (Sample.mapValue g) := by
  have answered : f.mapValues g k x = (f k x).map g := rfl
  rw [sample, sample, answered]
  cases f k x with
  | error e =>
      simp only [Except.map, Run.translate, faults]
      rfl
  | ok y =>
      cases number : isFinite y with
      | true =>
          simp only [Except.map, finite, number, if_true, Run.translate]
          rfl
      | false =>
          simp only [Except.map, finite, number, Bool.false_eq_true, if_false, Run.translate,
            faults]
          rfl

namespace Scheme

/-- With values changed by `g`, the second scheme goes on as the first one does. -/
structure Carries (g : α → α) (event : ε → ε) (state : σ → σ) (scheme scheme' : Scheme α ε σ) :
    Prop where
  settled (s) : scheme'.settled (state s) ↔ scheme.settled s
  target (s) : scheme'.target (state s) = scheme.target s
  update (s p) : scheme'.update (state s) (p.mapValue g) = state (scheme.update s p)
  answer (s) : scheme'.answer (state s) = (scheme.answer s).mapValue g
  stepped (s i p) : scheme'.stepped (state s) i (p.mapValue g) = event (scheme.stepped s i p)
  converged (p counters) : scheme'.converged (p.mapValue g) counters =
    event (scheme.converged p counters)
  limit (i p) : scheme'.limit i (p.mapValue g) = event (scheme.limit i p)

variable {event : ε → ε} {state : σ → σ} {scheme scheme' : Scheme α ε σ}

theorem Carries.run (h : Carries g event state scheme scheme')
    (finite : ∀ y, isFinite (g y) = isFinite y) (failure : Failure α → Failure α)
    (faults : ∀ fault, failure (.evaluation fault) = .evaluation fault)
    (limit : ∀ i, failure (.iterationLimit i) = .iterationLimit i) (f : ScalarFunction α)
    (budget n : Nat) (s : σ) (counters : Counters) :
    (scheme'.loop (f.mapValues g) budget).run n (state s, counters) =
      ((scheme.loop f budget).run n (s, counters)).translate (SearchEntry.mapValues g event)
        failure (Solution.mapValue g) := by
  refine Loop.run_translate (Prod.map state id) ?done ?finish ?giveUp ?step n (s, counters)
  case done =>
    intro s
    exact h.settled s.1
  case finish =>
    intro s
    simp only [loop, Prod.map, id, h.answer, h.converged]
    rfl
  case giveUp =>
    intro s
    simp only [loop, Prod.map, id, h.answer, h.limit, Run.translate, limit]
    rfl
  case step =>
    intro s
    simp only [loop, Prod.map, id, h.target]
    rw [f.sample_mapValues finite failure faults event]
    apply Run.bind_translate
    intro p
    simp only [h.stepped, h.update]
    rfl

end Scheme

end Nonlinear
