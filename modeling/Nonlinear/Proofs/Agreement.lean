import Mathlib
import Nonlinear.Proofs.Newton.Course
import Nonlinear.Proofs.ResidualNorm.Exact
import Nonlinear.Proofs.Root.Containment
import Nonlinear.Proofs.Root.SignChange

/-! # Agreement of root search and Newton's method

An answer of either method comes with evidence: a small value, or for the search a change of sign
nearby.  Where values grow away from the root at some rate, evidence of either kind bounds the
distance from the root, so two answers cannot be far apart.  How they were come by does not matter.
-/

namespace Nonlinear

open Scalar

variable {K : Type} [Field K] [LinearOrder K]

/-- The function goes one way, and at a rate of at least `μ`. -/
structure Steep (g : K → K) (μ : K) : Prop where
  monotone : StrictMono g ∨ StrictAnti g
  rate_pos : 0 < μ
  rate (u v : K) : μ * |u - v| ≤ |g u - g v|

namespace Steep

variable [IsStrictOrderedRing K] {g : K → K} {μ root x y t : K}

theorem near_of_small (h : Steep g μ) (zero : g root = 0) (small : |g x| ≤ t) :
    |x - root| ≤ t / μ := by
  rw [le_div_iff₀ h.rate_pos, mul_comm]
  calc μ * |x - root| ≤ |g x - g root| := h.rate x root
    _ = |g x| := by rw [zero, sub_zero]
    _ ≤ t := small

/-- The root is where the sign changes. -/
theorem near_of_opposite (h : Steep g μ) (zero : g root = 0) (opposite : g x * g y < 0) :
    |x - root| ≤ |y - x| := by
  have between : root ∈ Set.uIcc x y := by
    have ordered : root ∈ Set.Icc x y ∨ root ∈ Set.Icc y x := by
      rcases h.monotone with mono | anti
      · rcases mul_neg_iff.mp opposite with ⟨pos, neg⟩ | ⟨neg, pos⟩ <;> rw [← zero] at pos neg
        · exact .inr ⟨(mono.lt_iff_lt.mp neg).le, (mono.lt_iff_lt.mp pos).le⟩
        · exact .inl ⟨(mono.lt_iff_lt.mp neg).le, (mono.lt_iff_lt.mp pos).le⟩
      · rcases mul_neg_iff.mp opposite with ⟨pos, neg⟩ | ⟨neg, pos⟩ <;> rw [← zero] at pos neg
        · exact .inl ⟨(anti.lt_iff_gt.mp pos).le, (anti.lt_iff_gt.mp neg).le⟩
        · exact .inr ⟨(anti.lt_iff_gt.mp pos).le, (anti.lt_iff_gt.mp neg).le⟩
    exact ordered.elim (fun mem => Set.Icc_subset_uIcc mem) fun mem => Set.Icc_subset_uIcc' mem
  rw [abs_sub_comm]
  exact Set.abs_sub_left_of_mem_uIcc between

end Steep

variable [ExactConstants K] {g : K → K} {μ root : K}

theorem ScalarFunction.Gives.value {f : ScalarFunction K} {k : Nat} {x : K} {p : Sample K}
    (h : f.Gives k x p) (agrees : ∀ k x y, f k x = .ok y → y = g x) : p.y = g p.x := by
  rw [h.at_point]
  exact agrees _ _ _ h.answer

namespace Root

/-- Both ends of the bracket are points of the graph. -/
structure Bracket.OnGraph (s : Bracket K) (g : K → K) : Prop where
  best : s.best.y = g s.best.x
  counter : s.counter.y = g s.counter.x

theorem Bracket.OnGraph.keepBest {s : Bracket K} (h : s.OnGraph g) : s.keepBest.OnGraph g := by
  unfold Bracket.keepBest
  split
  · exact ⟨h.counter, h.best⟩
  · exact h

theorem Bracket.OnGraph.advance {s : Bracket K} {p : Sample K} (h : s.OnGraph g)
    (value : p.y = g p.x) : (s.advance p).OnGraph g := by
  refine ⟨value, ?_⟩
  unfold Bracket.advance
  dsimp only
  split
  · exact h.best
  · exact h.counter

variable {config : SearchConfig K} {f : ScalarFunction K} {a b : K}

theorem Reaches.onGraph (agrees : ∀ k x y, f k x = .ok y → y = g x) {k : Nat}
    {trace : List (SearchEntry K (Event K))} {t : Bracket K × Counters}
    (h : Reaches config f a b k trace t) : t.1.OnGraph g := by
  refine Scheme.Reaches.invariant (P := fun _ s => s.OnGraph g) ?_ ?_ h
  · rintro _ _ ⟨p, q, opens, rfl, rfl⟩
    exact ⟨opens.right.value agrees, opens.left.value agrees⟩
  · intro k trace more s p _ graph _ gives _
    exact graph.keepBest.advance (gives.value agrees)

variable [IsStrictOrderedRing K]

/-- A point that is answered is as near to the root as its value or its bracket tells. -/
theorem near_of_ok (steep : Steep g μ) (zero : g root = 0)
    (agrees : ∀ k x y, f k x = .ok y → y = g x) {r : Solution K}
    (ok : (search config f a b).outcome = .ok r) :
    |r.x - root| ≤ max (config.functionTolerance / μ)
      (4 * ExactConstants.epsilon * |r.x| + config.tolerance) := by
  have small {x y : K} (value : y = g x) (small : |y| ≤ config.functionTolerance) :
      |x - root| ≤ config.functionTolerance / μ :=
    steep.near_of_small zero (value ▸ small)
  obtain ⟨p, q, sampled, ⟨atEnd, tiny⟩ | opens⟩ := search_ok ok
  · refine (small ?_ tiny).trans (le_max_left _ _)
    rcases atEnd with ⟨x, y⟩ | ⟨x, y⟩
    · rw [x, y]
      exact sampled.left.value agrees
    · rw [x, y]
      exact sampled.right.value agrees
  · obtain ⟨k, trace, t, reaches, settled, x, -⟩ :=
      Scheme.reaches_of_ok opens.search_eq opens.starts ok
    have graph := (Reaches.onGraph agrees reaches).keepBest
    have separates := (Reaches.separates reaches).1.keepBest
    change r.x = t.1.keepBest.best.x at x
    rw [x]
    rcases (t.1.keepBest.converged_exact _ _).mp settled with narrow | tiny
    · refine le_trans ?_ (le_max_right _ _)
      rw [Bracket.resolution_exact, Bracket.width_exact] at narrow
      rcases separates.signs with exact | opposite
      · have here := steep.near_of_small (t := 0) zero (by rw [← graph.best, exact, abs_zero])
        rw [zero_div] at here
        have := abs_nonneg (t.1.keepBest.counter.x - t.1.keepBest.best.x)
        linarith
      · rw [graph.best, graph.counter] at opposite
        have here := steep.near_of_opposite zero opposite
        linarith
    · exact (small graph.best tiny).trans (le_max_left _ _)

end Root

variable [IsStrictOrderedRing K]

namespace Newton

theorem near_of_ok [PerfectRoots K] {config : NewtonConfig K} {linear : LinearSolver K 1}
    {F : VectorFunction K 1} {derivative : Derivative K 1} {guess : Vector K 1}
    (steep : Steep g μ) (zero : g root = 0)
    (agrees : ∀ k x buffer, (F k x buffer).error = none → (F k x buffer).contents = #v[g x[0]])
    {s : Solution (Vector K 1)}
    (ok : (solve config linear F derivative guess).outcome = .ok s) :
    |s.x[0] - root| ≤ config.tolerance / μ := by
  obtain ⟨⟨k, buffer, value⟩, small⟩ := solution_of_ok ok
  have answer := agrees k s.x buffer (congrArg Written.error value)
  rw [value] at answer
  change s.value = _ at answer
  rw [answer, ResidualNorm.norm_single] at small
  exact steep.near_of_small zero small.le

end Newton

/-- In exact arithmetic a root search and Newton's method agree on an equation in one unknown that
is steep, up to what their tolerances allow, whatever Jacobian and guess Newton's method had. -/
theorem search_agrees_with_solve [PerfectRoots K] (steep : Steep g μ) (zero : g root = 0)
    {config : SearchConfig K} {f : ScalarFunction K} {a b : K}
    (agrees : ∀ k x y, f k x = .ok y → y = g x)
    {newton : NewtonConfig K} {F : VectorFunction K 1}
    (agrees' : ∀ k x buffer, (F k x buffer).error = none → (F k x buffer).contents = #v[g x[0]])
    (linear : Newton.LinearSolver K 1) (derivative : Newton.Derivative K 1) (guess : Vector K 1)
    {r : Solution K} (ok : (Root.search config f a b).outcome = .ok r)
    {s : Solution (Vector K 1)}
    (ok' : (Newton.solve newton linear F derivative guess).outcome = .ok s) :
    |r.x - s.x[0]| ≤ max (config.functionTolerance / μ)
      (4 * ExactConstants.epsilon * |r.x| + config.tolerance) + newton.tolerance / μ := by
  have first := Root.near_of_ok steep zero agrees ok
  have second := Newton.near_of_ok steep zero agrees' ok'
  rw [abs_sub_comm] at second
  exact (abs_sub_le r.x root s.x[0]).trans (add_le_add first second)

/-- A function with a kink in its root. -/
def kinked (x : ℚ) : ℚ := x + max 0 x

theorem kinked_steep : Steep kinked 1 where
  monotone := .inl (strictMono_id.add_monotone fun _ _ le => max_le_max_left 0 le)
  rate_pos := one_pos
  rate := by
    have grows {u v : ℚ} (le : u ≤ v) : |u - v| ≤ |kinked u - kinked v| := by
      have further : max 0 u ≤ max 0 v := max_le_max_left 0 le
      have farther : kinked u - kinked v ≤ u - v := by
        unfold kinked
        linarith
      rw [abs_of_nonpos (sub_nonpos.mpr le),
        abs_of_nonpos (farther.trans (sub_nonpos.mpr le))]
      linarith
    intro u v
    rw [one_mul]
    rcases le_total u v with le | le
    · exact grows le
    · rw [abs_sub_comm u, abs_sub_comm (kinked u)]
      exact grows le

/-- A search for the kink from `-1` to `1`, and Newton's method from `1` with a slope that is
nowhere right. -/
theorem search_agrees_with_solve_kinked :
    let f : ScalarFunction ℚ := fun _ x => .ok (kinked x)
    let F : VectorFunction ℚ 1 := fun _ x _ => ⟨#v[kinked x[0]], none⟩
    let slope : Newton.Derivative ℚ 1 := .analytic fun _ _ _ => ⟨.ofFn fun _ _ => 4, none⟩
    let newton : NewtonConfig ℚ := { NewtonConfig.standard with tolerance := 1 / 10 }
    (Root.search ⟨1 / 4, 0, 20, false⟩ f (-1) 1).outcome = .ok ⟨-1 / 21, -1 / 21, ⟨3, 5, 0⟩⟩ ∧
      (Newton.solve newton .diagonal F slope #v[1]).outcome =
        .ok ⟨#v[1 / 32], #v[1 / 16], ⟨5, 6, 5⟩⟩ ∧
      |(-1 / 21 - 1 / 32 : ℚ)| ≤
        max (0 / 1) (4 * ExactConstants.epsilon * |-1 / 21| + 1 / 4) + 1 / 10 / 1 := by
  intro f F slope newton
  have ok : (Root.search ⟨1 / 4, 0, 20, false⟩ f (-1) 1).outcome =
      .ok ⟨-1 / 21, -1 / 21, ⟨3, 5, 0⟩⟩ := Run.ok_of_toOption (by decide +kernel)
  have ok' : (Newton.solve newton .diagonal F slope #v[1]).outcome =
      .ok ⟨#v[1 / 32], #v[1 / 16], ⟨5, 6, 5⟩⟩ := Run.ok_of_toOption (by decide +kernel)
  have agrees : ∀ k x y, f k x = .ok y → y = kinked x := by
    intro k x y same
    cases same
    rfl
  have agrees' : ∀ k x buffer, (F k x buffer).error = none →
      (F k x buffer).contents = #v[kinked x[0]] := fun _ _ _ _ => rfl
  have zero : kinked 0 = 0 := add_zero 0
  have close := search_agrees_with_solve kinked_steep zero agrees agrees' .diagonal slope #v[1]
    ok ok'
  exact ⟨ok, ok', close⟩

end Nonlinear
