import Mathlib.Control.Monad.Basic
import Nonlinear.Log.Events
import Nonlinear.Proofs.Search.Plan

/-! # The books of the scalar searches

A root search asks for both ends of its interval and then for one point in each iteration, a minimum
search for one point inside and then likewise.  Whatever their functions answer, their calls, their
counters and their events tell the same story.
-/

namespace Nonlinear

open Scalar

variable {α : Type}

namespace Root

/-- What a root search may do. -/
def plan [Scalar α] (config : SearchConfig α) (f : ScalarFunction α) (a b : α) :
    Plan α (Event α) Step where
  opening := [a, b]
  asks k x kind := ∃ trace t, Reaches config f a b k trace t ∧ ¬ t.1.settled config ∧
    x = t.1.target config ∧ kind = (t.1.move config).1
  event := .step
  budget := config.maxIterations
  refuses failure := ∃ fa fb, failure = .invalidBracket a b fa fb

variable [FloatingPoint α] {config : SearchConfig α} {f : ScalarFunction α} {a b : α}
  {p q : Sample α}

theorem scheme_reports (config : SearchConfig α) :
    (scheme config).Reports Event.step fun s => (s.move config).1 :=
  ⟨fun _ _ _ => rfl, fun _ _ _ _ => rfl, fun _ _ => rfl, fun _ _ => rfl⟩

theorem Sampled.openingTrace_eq (h : Sampled config f a b p q) :
    openingTrace f a b = [p, q].map Sample.entry := by
  rw [openingTrace, h.left.answer, h.right.answer, ← h.left.at_point, ← h.right.at_point]
  rfl

/-- Where the loop is not entered there is one event about the ends. -/
theorem Sampled.proceed_follows (h : Sampled config f a b p q) :
    (plan config f a b).Follows f ((proceed config f a b p q).after (openingTrace f a b)) := by
  have opening : [p, q].map Sample.x = [a, b] := by
    rw [List.map_cons, List.map_cons, h.left.at_point, h.right.at_point]
    rfl
  have answers : f.Answers [p, q] := (f.answers_nil.concat h.left).concat h.right
  have stops {closing : Course α (Solution α)} (closes : (plan config f a b).Closes f 2 0 closing) :
      (plan config f a b).Follows f (closing.after ([p, q].map Sample.entry)) :=
    Plan.follows_of_calls [p, q] (scheme_reports config).traced (opening ▸ List.prefix_rfl) answers
      closes
  rw [h.openingTrace_eq, proceed]
  by_cases left : magnitude p.y ≤ config.functionTolerance
  · rw [if_pos left]
    exact stops (.found rfl rfl)
  by_cases right : magnitude q.y ≤ config.functionTolerance
  · rw [if_neg left, if_pos right]
    exact stops (.found rfl rfl)
  rw [if_neg left, if_neg right]
  split
  · exact stops (.refused rfl rfl rfl ⟨p.y, q.y, rfl⟩)
  · rename_i signs
    have opens : Opens config f a b p q := ⟨h, left, right, Bool.eq_false_iff.mpr signs⟩
    refine Scheme.follows (scheme_reports config) opening answers rfl ?_
    intro k inner t le leads unsettled
    exact ⟨_, t, ⟨_, _, inner, opens.starts, le, leads, rfl⟩, unsettled, rfl, rfl⟩

theorem search_follows (finite_left : isFinite a = true) (finite_right : isFinite b = true)
    (valid : config.validate = .ok ()) :
    (plan config f a b).Follows f (search config f a b) := by
  have admits : Admits config a b := ⟨finite_left, finite_right, valid⟩
  have traced := (scheme_reports config).traced
  cases left : (f.sample 1 a : Run (SearchEntry α (Event α)) (Failure α) (Sample α)).outcome with
  | error e =>
      rw [admits.search_eq, Run.bind_error left]
      exact Plan.follows_of_calls [] traced List.nil_prefix f.answers_nil
        (.cutOff (.inl rfl) (ScalarFunction.sample_error_iff.mp left))
  | ok p =>
      cases right :
          (f.sample 2 b : Run (SearchEntry α (Event α)) (Failure α) (Sample α)).outcome with
      | error e =>
          have first := ScalarFunction.sample_ok_iff.mp left
          have called : [(.call a (f 1 a) : SearchEntry α (Event α))] = [p].map Sample.entry := by
            rw [first.answer, ← first.at_point]
            rfl
          rw [admits.search_eq, Run.bind_of_ok left, Run.bind_error right,
            ScalarFunction.sample_trace, called]
          exact Plan.follows_of_calls [p] traced ⟨[b], by rw [← first.at_point]; rfl⟩
            (f.answers_nil.concat first)
            (.cutOff (.inl rfl) (ScalarFunction.sample_error_iff.mp right))
      | ok q =>
          have sampled : Sampled config f a b p q := admits.sampled left right
          rw [sampled.search_eq]
          exact sampled.proceed_follows

end Root

namespace Minimum

/-- What a minimum search may do. -/
def plan [Scalar α] (config : SearchConfig α) (f : ScalarFunction α) (a b : α) :
    Plan α (Event α) Step where
  opening := [entry a b]
  asks k x kind := ∃ trace t, Reaches config f a b k trace t ∧ ¬ t.1.settled config ∧
    x = t.1.target config ∧ kind = (t.1.move config).1
  event := .step
  budget := config.maxIterations
  refuses _ := False

variable [FloatingPoint α] {config : SearchConfig α} {f : ScalarFunction α} {a b : α}

theorem scheme_reports (config : SearchConfig α) :
    (scheme config).Reports Event.step fun s => (s.move config).1 :=
  ⟨fun _ _ _ => rfl, fun _ _ _ _ => rfl, fun _ _ => rfl, fun _ _ => rfl⟩

theorem search_follows (finite_left : isFinite a = true) (finite_right : isFinite b = true)
    (distinct : (a == b) = false) (valid : config.validate = .ok ()) :
    (plan config f a b).Follows f (search config f a b) := by
  have admits : Admits config a b := ⟨finite_left, finite_right, distinct, valid⟩
  cases sampled : (f.sample 1 (entry a b) :
      Run (SearchEntry α (Event α)) (Failure α) (Sample α)).outcome with
  | error e =>
      rw [admits.search_eq, Run.bind_error sampled]
      exact Plan.follows_of_calls [] (scheme_reports config).traced List.nil_prefix
        f.answers_nil (.cutOff (.inl rfl) (ScalarFunction.sample_error_iff.mp sampled))
  | ok p =>
      have opens : Opens config f a b p := admits.opens sampled
      have first := opens.first
      have called : openingTrace f a b = [p].map Sample.entry := by
        rw [openingTrace, first.answer, ← first.at_point]
        rfl
      have opening : [p].map Sample.x = [entry a b] := by
        rw [← first.at_point]
        rfl
      rw [opens.search_eq, called]
      refine Scheme.follows (scheme_reports config) opening (f.answers_nil.concat first) rfl ?_
      intro k inner t le leads unsettled
      exact ⟨_, t, ⟨_, _, inner, opens.starts, le, leads, rfl⟩, unsettled, rfl, rfl⟩

end Minimum

/-- The calls, the counters and the events of a scalar search that accepts its input agree,
whatever comes of it. -/
theorem searches_keep_books {α : Type} [FloatingPoint α] (config : SearchConfig α)
    (f : ScalarFunction α) (a b : α) (finite_left : isFinite a = true)
    (finite_right : isFinite b = true) (valid : config.validate = .ok ()) :
    (Root.plan config f a b).Follows f (Root.search config f a b) ∧
      ((a == b) = false → (Minimum.plan config f a b).Follows f (Minimum.search config f a b)) :=
  ⟨Root.search_follows finite_left finite_right valid,
    fun distinct => Minimum.search_follows finite_left finite_right distinct valid⟩

/-- A coarse configuration. -/
def coarse [Scalar α] : SearchConfig α := ⟨0.25, 0.0, 10, false⟩

def parabola [Scalar α] : ScalarFunction α := fun _ x => .ok (x * x - 2.0)

/-- A root and the minimum of a parabola, in doubles and in singles. -/
theorem searches_keep_books_parabola :
    ((Root.plan coarse parabola (-1.0 : Float) 2.0).Follows parabola
        (Root.search coarse parabola (-1.0) 2.0) ∧
      (Minimum.plan coarse parabola (-1.0 : Float) 2.0).Follows parabola
        (Minimum.search coarse parabola (-1.0) 2.0)) ∧
    ((Root.plan coarse parabola (-1.0 : Float32) 2.0).Follows parabola
        (Root.search coarse parabola (-1.0) 2.0) ∧
      (Minimum.plan coarse parabola (-1.0 : Float32) 2.0).Follows parabola
        (Minimum.search coarse parabola (-1.0) 2.0)) := by
  have double := searches_keep_books coarse parabola (-1.0 : Float) 2.0 (by decide +kernel)
    (by decide +kernel) (by decide +kernel)
  have single := searches_keep_books coarse parabola (-1.0 : Float32) 2.0 (by decide +kernel)
    (by decide +kernel) (by decide +kernel)
  exact ⟨⟨double.1, double.2 (by decide +kernel)⟩, ⟨single.1, single.2 (by decide +kernel)⟩⟩

end Nonlinear
