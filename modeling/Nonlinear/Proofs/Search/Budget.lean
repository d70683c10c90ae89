import Nonlinear.Proofs.Config
import Nonlinear.Proofs.Loop.Continuation
import Nonlinear.Proofs.Minimum.Course
import Nonlinear.Proofs.Root.Course

/-! # A budget only breaks a search off

The iterations of a scalar search do not depend on how many of them are allowed.  So a search that
comes to an end by itself is the same under every budget that lets it, and any smaller budget
shows its beginning.
-/

namespace Nonlinear

open Scalar SearchEntry

variable {α ε σ : Type}

/-- The number of calls that a search makes after the first `opening` ones. -/
def interior {β : Type} (opening : Nat) (course : Run (SearchEntry α ε) (Failure α) β) : Nat :=
  (arguments course.trace).length - opening

/-- The course `short` makes the first `calls` calls of `long` and then gives up. -/
structure BrokenOff {β : Type} (calls budget : Nat)
    (short long : Run (SearchEntry α ε) (Failure α) β) : Prop where
  outcome : short.outcome = .error (.iterationLimit budget)
  arguments : arguments short.trace = (arguments long.trace).take calls
  beginning : ∃ front last, short.trace = front ++ [.event last] ∧ front <+: long.trace

/-- The courses of a search under all its budgets.  One that does not run into its limit is also
the course under any other budget that covers its interior calls, and under any smaller one it is
broken off after as many of them. -/
def OnlyBreaksOff {β : Type} (opening : Nat)
    (course : (budget : Nat) → Run (SearchEntry α ε) (Failure α) β) : Prop :=
  ∀ budget, 1 ≤ budget → (∀ n, (course budget).outcome ≠ .error (.iterationLimit n)) →
    ∀ other, 1 ≤ other →
      (interior opening (course budget) ≤ other → course other = course budget) ∧
      (other < interior opening (course budget) →
        BrokenOff (opening + other) other (course other) (course budget))

theorem OnlyBreaksOff.of_constant {β : Type} {opening : Nat}
    {course : (budget : Nat) → Run (SearchEntry α ε) (Failure α) β}
    {r : Run (SearchEntry α ε) (Failure α) β} (same : ∀ budget, 1 ≤ budget → course budget = r)
    (few : (arguments r.trace).length ≤ opening) : OnlyBreaksOff opening course := by
  intro budget hbudget _ other hother
  rw [same budget hbudget, same other hother, interior, Nat.sub_eq_zero_of_le few]
  exact ⟨fun _ => rfl, fun lt => absurd lt (Nat.not_lt_zero other)⟩

namespace Scheme

variable [Scalar α] {scheme : Scheme α ε σ} {f : ScalarFunction α} {budget other k : Nat}
  {s t : σ × Counters} {trace : List (SearchEntry α ε)}

theorem leads_budget (h : (scheme.loop f budget).Leads s k trace t) (other : Nat) :
    (scheme.loop f other).Leads s k trace t := by
  have continues : (scheme.loop f other).Continues (scheme.loop f budget) :=
    ⟨fun _ => rfl, fun _ settled => settled⟩
  exact continues.leads h

/-- A search that has not settled within its budget has made the first calls of any course that
has passed through the same states. -/
theorem brokenOff {long : Run (SearchEntry α ε) (Failure α) (Solution α)}
    (leads : (scheme.loop f budget).Leads s budget trace t) (more : ¬ scheme.settled t.1)
    (within : trace <+: long.trace) (opening : List (SearchEntry α ε)) :
    BrokenOff ((arguments opening).length + budget) budget
      (((scheme.loop f budget).run budget s).after opening) (long.after opening) := by
  have front : arguments trace = (arguments long.trace).take budget := by
    rw [← leads_arguments leads]
    exact List.prefix_iff_eq_take.mp (arguments_mono within)
  rw [Loop.run_of_exhausted leads more]
  constructor
  case outcome => rfl
  case arguments => simp [front, List.take_length_add_append]
  case beginning =>
    refine ⟨opening ++ trace, scheme.limit budget (scheme.answer t.1), ?_, ?_⟩
    · simp [loop]
    · exact (List.prefix_append_right_inj opening).mpr within

/-- A search whose budget is that of its loop is only broken off by it. -/
theorem onlyBreaksOff (scheme : Scheme α ε σ) (f : ScalarFunction α) (s : σ × Counters)
    (opening : List (SearchEntry α ε))
    {course : (budget : Nat) → Run (SearchEntry α ε) (Failure α) (Solution α)}
    (same : ∀ budget, 1 ≤ budget →
      course budget = ((scheme.loop f budget).run budget s).after opening) :
    OnlyBreaksOff (arguments opening).length course := by
  intro budget hbudget ended other hother
  rw [same budget hbudget] at ended ⊢
  rw [same other hother]
  obtain ⟨k, trace, t, r, leads, ends, eq⟩ := (scheme.loop f budget).run_ends budget s
  have counted := leads_arguments leads
  have leads' := leads_budget leads other
  have within : trace <+: ((scheme.loop f budget).run budget s).trace := by
    rw [eq]
    exact List.prefix_append trace _
  cases ends with
  | finished le settled =>
      have steps : interior (arguments opening).length
          (((scheme.loop f budget).run budget s).after opening) = k := by
        simp [interior, eq, counted]
      rw [steps]
      constructor
      · intro covers
        rw [eq, Loop.run_of_finished leads' settled covers]
        rfl
      · intro lt
        obtain ⟨front, u, passage, unsettled, before⟩ := leads'.before lt
        exact brokenOff passage unsettled (before.trans within) opening
  | exhausted unsettled =>
      rw [eq] at ended
      exact absurd rfl (ended budget)
  | failed lt unsettled fails =>
      have steps : interior (arguments opening).length
          (((scheme.loop f budget).run budget s).after opening) = k + 1 := by
        obtain ⟨events, step⟩ := scheme.step_trace f budget t
        simp [interior, eq, counted, step]
      rw [steps]
      constructor
      · intro covers
        rw [eq, Loop.run_of_failed leads' unsettled fails covers]
        rfl
      · intro lt'
        obtain ⟨front, u, passage, unsettled', before⟩ :=
          leads'.earlier unsettled (Nat.le_of_lt_succ lt')
        exact brokenOff passage unsettled' (before.trans within) opening

end Scheme

variable [Scalar α] {f : ScalarFunction α} {a b : α}

namespace Root

theorem onlyBreaksOff (config : SearchConfig α) (f : ScalarFunction α) (a b : α) :
    OnlyBreaksOff 2 fun budget => search { config with maxIterations := budget } f a b := by
  have same_verdict := fun budget (h : 1 ≤ budget) => config.validate_budget h (Nat.le_refl 1)
  by_cases sampled : ∃ p q, Sampled { config with maxIterations := 1 } f a b p q
  · obtain ⟨p, q, sampled⟩ := sampled
    have eq : ∀ budget, 1 ≤ budget → search { config with maxIterations := budget } f a b =
        (proceed { config with maxIterations := budget } f a b p q).after (openingTrace f a b) := by
      intro budget h
      have valid := (same_verdict budget h).trans sampled.valid
      exact Sampled.search_eq ⟨sampled.1, sampled.2, valid, sampled.4, sampled.5⟩
    by_cases left : magnitude p.y ≤ config.functionTolerance
    · apply OnlyBreaksOff.of_constant
      · intro budget h
        rw [eq budget h, proceed, if_pos left]
      · exact Nat.le_refl 2
    by_cases right : magnitude q.y ≤ config.functionTolerance
    · apply OnlyBreaksOff.of_constant
      · intro budget h
        rw [eq budget h, proceed, if_neg left, if_pos right]
      · exact Nat.le_refl 2
    by_cases signs : (isNegative p.y == isNegative q.y) = true
    · apply OnlyBreaksOff.of_constant
      · intro budget h
        rw [eq budget h, proceed, if_neg left, if_neg right, if_pos signs]
      · exact Nat.le_refl 2
    apply Scheme.onlyBreaksOff (scheme config) f (opening p q) (openingTrace f a b)
    intro budget h
    rw [eq budget h, proceed, if_neg left, if_neg right, if_neg signs]
    rfl
  · obtain ⟨r, few, same⟩ := search_of_not_sampled fun p q h => sampled ⟨p, q, h⟩
    exact .of_constant (fun budget h => same _ (same_verdict budget h)) few

end Root

namespace Minimum

theorem onlyBreaksOff (config : SearchConfig α) (f : ScalarFunction α) (a b : α) :
    OnlyBreaksOff 1 fun budget => search { config with maxIterations := budget } f a b := by
  have same_verdict := fun budget (h : 1 ≤ budget) => config.validate_budget h (Nat.le_refl 1)
  by_cases opens : ∃ p, Opens { config with maxIterations := 1 } f a b p
  · obtain ⟨p, opens⟩ := opens
    apply Scheme.onlyBreaksOff (scheme config) f (opening a b p) (openingTrace f a b)
    intro budget h
    have valid := (same_verdict budget h).trans opens.valid
    exact Opens.search_eq ⟨opens.1, opens.2, opens.3, valid, opens.5⟩
  · obtain ⟨r, few, same⟩ := search_of_not_opens fun p h => opens ⟨p, h⟩
    exact .of_constant (fun budget h => same _ (same_verdict budget h)) few

end Minimum

/-- The budget of a root search or of a minimum search only breaks it off.  The calls at both ends
are not counted against it, nor is the first one inside the interval. -/
theorem budget_only_breaks_off (config : SearchConfig α) (f : ScalarFunction α) (a b : α) :
    OnlyBreaksOff 2 (fun budget =>
        Root.search { config with maxIterations := budget } f a b) ∧
      OnlyBreaksOff 1 (fun budget =>
        Minimum.search { config with maxIterations := budget } f a b) :=
  ⟨Root.onlyBreaksOff config f a b, Minimum.onlyBreaksOff config f a b⟩

/-- In doubles the square root of two takes three iterations and the minimum of its parabola two.
A budget of one hundred changes nothing, and one less is too small. -/
theorem budget_only_breaks_off_parabola :
    let f : ScalarFunction Float := fun _ x => .ok (x * x - 2.0)
    let root budget := Root.search ⟨1e-2, 0.0, budget, false⟩ f 1.0 2.0
    let minimum budget := Minimum.search ⟨2.0, 0.0, budget, false⟩ f (-3.0) 2.0
    root 100 = root 3 ∧ (root 2).outcome = .error (.iterationLimit 2) ∧
      minimum 100 = minimum 2 ∧ (minimum 1).outcome = .error (.iterationLimit 1) := by
  intro f root minimum
  have root_breaks : OnlyBreaksOff 2 root :=
    (budget_only_breaks_off ⟨1e-2, 0.0, 3, false⟩ f 1.0 2.0).1
  have minimum_breaks : OnlyBreaksOff 1 minimum :=
    (budget_only_breaks_off ⟨2.0, 0.0, 2, false⟩ f (-3.0) 2.0).2
  have root_ok : (root 3).outcome.isOk = true ∧ interior 2 (root 3) = 3 := by decide +kernel
  have minimum_ok : (minimum 2).outcome.isOk = true ∧ interior 1 (minimum 2) = 2 := by
    decide +kernel
  have root_ends := root_breaks 3 (by decide)
    (fun n limit => by simp [limit, Except.isOk, Except.toBool] at root_ok)
  have minimum_ends := minimum_breaks 2 (by decide)
    (fun n limit => by simp [limit, Except.isOk, Except.toBool] at minimum_ok)
  rw [root_ok.2] at root_ends
  rw [minimum_ok.2] at minimum_ends
  exact ⟨(root_ends 100 (by decide)).1 (by decide),
    ((root_ends 2 (by decide)).2 (by decide)).outcome,
    (minimum_ends 100 (by decide)).1 (by decide),
    ((minimum_ends 1 (by decide)).2 (by decide)).outcome⟩

end Nonlinear
