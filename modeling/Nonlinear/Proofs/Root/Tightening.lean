import Nonlinear.Proofs.FloatingPoint.Order
import Nonlinear.Proofs.Loop.Continuation
import Nonlinear.Proofs.Root.Course
import Nonlinear.Proofs.Scalar.Exact

/-! # Root searches with a smaller function tolerance

The function tolerance decides when a root search stops, but not where it looks.  With a smaller
one the search asks for the same points and goes on to further ones.
-/

namespace Nonlinear.Root

open Scalar SearchEntry

variable {α : Type} [Scalar α] {config : SearchConfig α} {functionTolerance : α}
  {f : ScalarFunction α} {a b : α}

/-- The course `long` asks for the points that `short` asked for and perhaps for more.  It fails
as `short` does, and takes no fewer iterations to succeed. -/
structure Extends (short long : Course α (Solution α)) : Prop where
  arguments : arguments short.trace <+: arguments long.trace
  error : ∀ e, short.outcome = .error e → long.outcome = .error e
  iterations : ∀ r r', short.outcome = .ok r → long.outcome = .ok r' →
    r.counters.iterations ≤ r'.counters.iterations

namespace Extends

omit [Scalar α] in
theorem refl (course : Course α (Solution α)) : Extends course course := by
  constructor
  case arguments => exact List.prefix_refl _
  case error => exact fun _ fails => fails
  case iterations =>
    intro r r' ok ok'
    rw [ok] at ok'
    cases ok'
    exact Nat.le_refl _

omit [Scalar α] in
theorem after {short long : Course α (Solution α)} (h : Extends short long)
    (trace : List (SearchEntry α (Event α))) : Extends (short.after trace) (long.after trace) := by
  constructor
  case arguments => simpa using h.arguments
  case error => exact h.error
  case iterations => exact h.iterations

omit [Scalar α] in
/-- Any course extends an answer that needs no iterations. -/
theorem of_answer (event : Event α) (x y : α) (evaluations : Nat)
    (long : Course α (Solution α)) :
    Extends ⟨[.event event], .ok ⟨x, y, { functionEvaluations := evaluations }⟩⟩ long := by
  constructor
  case arguments => simp
  case error => exact fun _ fails => nomatch fails
  case iterations =>
    intro r r' ok _
    cases ok
    exact Nat.zero_le _

/-- A loop that stops less often extends another one with the same budget. -/
theorem of_continues {short long : Scheme α (Event α) (Bracket α)} {budget : Nat}
    (continues : (long.loop f budget).Continues (short.loop f budget))
    (same_limit : ∀ t, (long.loop f budget).giveUp t = (short.loop f budget).giveUp t)
    (s : Bracket α × Counters) :
    Extends ((short.loop f budget).run budget s) ((long.loop f budget).run budget s) := by
  rcases continues.run_cases budget s with ⟨_, _, same⟩ | ⟨k, trace, t, le, _, passage, ends⟩
  · rw [same budget (Nat.le_refl budget)]
    exact refl _
  rcases ends with ⟨_, eq⟩ | ⟨rfl, more, eq⟩
  · constructor
    case arguments =>
      rw [eq, Run.after_trace, arguments_append, Scheme.finish_arguments, List.append_nil]
      exact arguments_mono (passage.trace_prefix le)
    case error =>
      rw [eq]
      exact fun _ fails => nomatch fails
    case iterations =>
      intro r r' ok ok'
      obtain ⟨k', trace', t', _, passage', good, finished⟩ :=
        Loop.finished_of_ok (fun _ => ⟨_, rfl⟩) ok'
      have fewer : k ≤ k' := passage.le_of_done passage' good
      rw [eq] at ok
      cases ok
      cases finished
      show t.2.iterations ≤ t'.2.iterations
      rw [Scheme.leads_iterations passage, Scheme.leads_iterations passage']
      exact Nat.add_le_add_left fewer _
  · have goesOn := fun good => more (continues.done_of_done t good)
    rw [eq, Loop.run_of_exhausted passage goesOn, same_limit]
    exact refl _

end Extends

section Lawful

variable [LawfulScalar α]

theorem scheme_continues (tighter : functionTolerance ≤ config.functionTolerance)
    (f : ScalarFunction α) (budget : Nat) :
    ((scheme { config with functionTolerance }).loop f budget).Continues
      ((scheme config).loop f budget) := by
  constructor
  case step_eq => exact fun _ => rfl
  case done_of_done =>
    intro s settled
    rcases settled with narrow | small
    · exact .inl narrow
    · exact .inr (LawfulScalar.le_trans small tighter)

theorem proceed_extends (tighter : functionTolerance ≤ config.functionTolerance)
    (f : ScalarFunction α) (a b : α) (p q : Sample α) :
    Extends (proceed config f a b p q) (proceed { config with functionTolerance } f a b p q) := by
  by_cases left : magnitude p.y ≤ config.functionTolerance
  · rw [proceed, if_pos left]
    exact .of_answer _ _ _ _ _
  by_cases right : magnitude q.y ≤ config.functionTolerance
  · rw [proceed, if_neg left, if_pos right]
    exact .of_answer _ _ _ _ _
  have left' : ¬ magnitude p.y ≤ functionTolerance :=
    fun small => left (LawfulScalar.le_trans small tighter)
  have right' : ¬ magnitude q.y ≤ functionTolerance :=
    fun small => right (LawfulScalar.le_trans small tighter)
  rw [proceed, proceed, if_neg left, if_neg right, if_neg left', if_neg right']
  split
  · exact .refl _
  · exact .of_continues (scheme_continues tighter f config.maxIterations) (fun _ => rfl) _

/-- A root search with a smaller function tolerance visits the same points and perhaps more.  It
ends in every failure of the other search, and its answer takes no fewer iterations. -/
theorem search_extends (config : SearchConfig α) (functionTolerance : α) (f : ScalarFunction α)
    (a b : α) (valid : config.validate = .ok ())
    (valid' : { config with functionTolerance }.validate = .ok ())
    (tighter : functionTolerance ≤ config.functionTolerance) :
    Extends (search config f a b) (search { config with functionTolerance } f a b) := by
  by_cases sampled : ∃ p q, Sampled config f a b p q
  · obtain ⟨p, q, sampled⟩ := sampled
    have sampled' : Sampled { config with functionTolerance } f a b p q :=
      ⟨sampled.finite_left, sampled.finite_right, valid', sampled.left, sampled.right⟩
    rw [sampled.search_eq, sampled'.search_eq]
    exact (proceed_extends tighter f a b p q).after _
  · obtain ⟨r, _, same⟩ := search_of_not_sampled fun p q h => sampled ⟨p, q, h⟩
    rw [same _ rfl, same _ (valid'.trans valid.symm)]
    exact .refl r

end Lawful

/-- The square root of two, in doubles, in singles and in exact arithmetic: the search that asks for
a smaller value goes on. -/
theorem search_extends_sqrt_two :
    Extends (search ⟨0.25, 0.5, 10, false⟩ (fun _ (x : Float) => .ok (x * x - 2.0)) 1.0 2.0)
        (search ⟨0.25, 0.0, 10, false⟩ (fun _ (x : Float) => .ok (x * x - 2.0)) 1.0 2.0) ∧
      Extends (search ⟨0.25, 0.5, 10, false⟩ (fun _ (x : Float32) => .ok (x * x - 2.0)) 1.0 2.0)
        (search ⟨0.25, 0.0, 10, false⟩ (fun _ (x : Float32) => .ok (x * x - 2.0)) 1.0 2.0) ∧
      Extends (search ⟨0.25, 0.5, 10, false⟩ (fun _ (x : ℚ) => .ok (x * x - 2)) 1 2)
        (search ⟨0.25, 0.0, 10, false⟩ (fun _ (x : ℚ) => .ok (x * x - 2)) 1 2) ∧
      (arguments (search ⟨0.25, 0.5, 10, false⟩
        (fun _ (x : Float) => .ok (x * x - 2.0)) 1.0 2.0).trace).length <
      (arguments (search ⟨0.25, 0.0, 10, false⟩
        (fun _ (x : Float) => .ok (x * x - 2.0)) 1.0 2.0).trace).length := by
  have double : Extends _ _ := search_extends ⟨0.25, 0.5, 10, false⟩ (0.0 : Float)
    (fun _ x => .ok (x * x - 2.0)) 1.0 2.0 (by decide +kernel) (by decide +kernel)
    (by decide +kernel)
  have single : Extends _ _ := search_extends ⟨0.25, 0.5, 10, false⟩ (0.0 : Float32)
    (fun _ x => .ok (x * x - 2.0)) 1.0 2.0 (by decide +kernel) (by decide +kernel)
    (by decide +kernel)
  have rational : Extends _ _ := search_extends ⟨0.25, 0.5, 10, false⟩ (0.0 : ℚ)
    (fun _ x => .ok (x * x - 2)) 1 2 (by decide +kernel) (by decide +kernel) (by decide +kernel)
  exact ⟨double, single, rational, by decide +kernel⟩

end Nonlinear.Root
