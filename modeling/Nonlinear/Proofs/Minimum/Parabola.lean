import Mathlib
import Nonlinear.Proofs.Minimum.Unimodal
import Nonlinear.Proofs.Search.Parabola

/-! # Where parabolic steps lead

A parabolic step is computed from differences of points and values.  In exact arithmetic its
denominator is the curvature of the parabola through the three samples, times the distances of
their points, and its numerator the slope at the best sample, times the same distances.  So the step
leads to the vertex, and samples with no vertex, of which two are at one point or which are on a
line, have a denominator of zero.
-/

namespace Nonlinear.Minimum

open Polynomial

variable {K : Type} [Field K]

namespace Interval

/-- Samples at the same point have the same value. -/
structure SingleValued (s : Interval K) : Prop where
  best_second : s.best.x = s.second.x → s.best.y = s.second.y
  best_third : s.best.x = s.third.x → s.best.y = s.third.y
  second_third : s.second.x = s.third.x → s.second.y = s.third.y

/-- The samples are at three points and not on a line. -/
structure Curved (s : Interval K) : Prop where
  apart : Apart s.best s.second s.third
  leading : (s.best.parabola s.second s.third).coeff 2 ≠ 0

/-- The product of the distances between the points. -/
def spread (s : Interval K) : K :=
  (s.best.x - s.second.x) * (s.best.x - s.third.x) * (s.second.x - s.third.x)

variable {s : Interval K}

theorem spread_ne_zero (apart : Apart s.best s.second s.third) : s.spread ≠ 0 :=
  mul_ne_zero (mul_ne_zero (sub_ne_zero.mpr apart.first_second) (sub_ne_zero.mpr apart.first_third))
    (sub_ne_zero.mpr apart.second_third)

theorem vertexDenominator_eq (apart : Apart s.best s.second s.third) :
    s.vertexDenominator = (s.best.parabola s.second s.third).coeff 2 * s.spread := by
  obtain ⟨best, second, third⟩ := apart.passes
  rw [apart.eval_parabola] at best second third
  rw [vertexDenominator, ← best, ← second, ← third, spread]
  ring

theorem vertexNumerator_eq (apart : Apart s.best s.second s.third) :
    s.vertexNumerator =
      (derivative (s.best.parabola s.second s.third)).eval s.best.x * s.spread := by
  obtain ⟨best, second, third⟩ := apart.passes
  rw [apart.eval_parabola] at best second third
  rw [vertexNumerator, apart.eval_derivative, ← best, ← second, ← third, spread]
  ring

/-- Two samples at one point leave no denominator. -/
theorem SingleValued.apart (h : s.SingleValued) (divides : s.vertexDenominator ≠ 0) :
    Apart s.best s.second s.third := by
  constructor
  · intro same
    refine divides ?_
    rw [vertexDenominator, same, h.best_second same]
    ring
  · intro same
    refine divides ?_
    rw [vertexDenominator, same, h.best_third same]
    ring
  · intro same
    refine divides ?_
    rw [vertexDenominator, same, h.second_third same]
    ring

theorem vertexDenominator_ne_zero_iff (h : s.SingleValued) :
    s.vertexDenominator ≠ 0 ↔ s.Curved := by
  constructor
  · intro divides
    have apart := h.apart divides
    rw [vertexDenominator_eq apart] at divides
    exact ⟨apart, left_ne_zero_of_mul divides⟩
  · intro curved
    rw [vertexDenominator_eq curved.apart]
    exact mul_ne_zero curved.leading (spread_ne_zero curved.apart)

/-- The vertex is the only stationary point. -/
theorem Curved.stationary_iff [CharZero K] (h : s.Curved) (z : K) :
    (derivative (s.best.parabola s.second s.third)).eval z = 0 ↔ z = s.best.x + s.toVertex := by
  have leading := h.leading
  have way : s.toVertex = -((derivative (s.best.parabola s.second s.third)).eval s.best.x /
      (2 * (s.best.parabola s.second s.third).coeff 2)) := by
    rw [toVertex, ← two_mul, vertexNumerator_eq h.apart, vertexDenominator_eq h.apart, ← mul_assoc,
      mul_div_mul_right _ _ (spread_ne_zero h.apart)]
  rw [way, h.apart.eval_derivative, h.apart.eval_derivative]
  constructor
  · intro flat
    field_simp
    linear_combination flat
  · rintro rfl
    field_simp
    ring

omit [Field K] in
theorem OnGraph.singleValued {g : K → K} (h : s.OnGraph g) : s.SingleValued where
  best_second same := by rw [h.best, h.second, same]
  best_third same := by rw [h.best, h.third, same]
  second_third same := by rw [h.second, h.third, same]

end Interval

variable [LinearOrder K] [ExactConstants K] [IsStrictOrderedRing K]

/-- A parabolic step among samples of a function. -/
theorem Interval.parabolicStep_vertex {s : Interval K} {golden r step : K} (h : s.SingleValued) :
    s.parabolicStep golden r = some step ↔
      s.Curved ∧
        (∀ z, (derivative (s.best.parabola s.second s.third)).eval z = 0 ↔ z = s.best.x + step) ∧
        s.Allows golden r step := by
  rw [parabolicStep_eq_some_iff, vertexDenominator_ne_zero_iff h]
  refine and_congr_right fun curved => and_congr_left fun _ => ?_
  constructor
  · rintro rfl
    exact curved.stationary_iff
  · intro vertex
    exact add_left_cancel ((curved.stationary_iff _).mp ((vertex _).mpr rfl))

section Search

variable {config : SearchConfig K} {f : ScalarFunction K} {a b : K} {g : K → K} {k : Nat}
  {trace : List (SearchEntry K (Event K))} {t : Interval K × Counters}

/-- Every parabolic step that a search of a function proposes leads to the vertex of the parabola
through its samples. -/
theorem Reaches.move_vertex (agrees : ∀ k, ∀ x ∈ Set.uIcc a b, ∀ y, f k x = .ok y → y = g x)
    (h : Reaches config f a b k trace t) (parabolic : (t.1.move config).1 = .parabolic) :
    t.1.Curved ∧ ∀ z, (derivative (t.1.best.parabola t.1.second t.1.third)).eval z = 0 ↔
      z = t.1.best.x + (t.1.move config).2 := by
  have single := (h.onGraph agrees).singleValued
  rcases t.1.move_cases config with golden | ⟨-, step⟩
  · rw [golden] at parabolic
    cases parabolic
  · obtain ⟨curved, vertex, -⟩ := (Interval.parabolicStep_vertex single).mp step
    exact ⟨curved, vertex⟩

end Search

/-- A step is parabolic exactly where the samples have a parabola with a vertex and the way there
stays clear of both ends and is shorter than the golden-section step.  Where the
samples have no such parabola it is always that one. -/
theorem nextStep_vertex {s : Interval K} (single : s.SingleValued) (golden r : K) :
    (∀ step, s.nextStep golden r = (.parabolic, step) ↔
      r ≤ |s.best.x - s.second.x| ∧ s.Curved ∧
        (∀ z, (derivative (s.best.parabola s.second s.third)).eval z = 0 ↔
          z = s.best.x + step) ∧
        s.a + 2 * r < s.best.x + step ∧ s.best.x + step < s.b - 2 * r ∧ |step| < |golden|) ∧
    (¬ s.Curved → s.nextStep golden r = (.goldenSection, golden)) := by
  have parabolic (step : K) : s.nextStep golden r = (.parabolic, step) ↔
      r ≤ |s.best.x - s.second.x| ∧ s.Curved ∧
        (∀ z, (derivative (s.best.parabola s.second s.third)).eval z = 0 ↔
          z = s.best.x + step) ∧ s.Allows golden r step := by
    rw [Interval.nextStep_eq_parabolic_iff, Interval.parabolicStep_vertex single]
    exact and_congr_left' not_lt
  constructor
  · intro step
    rw [parabolic, Interval.allows_iff]
  · intro flat
    refine (s.nextStep_cases golden r).resolve_right ?_
    rintro ⟨step, taken⟩
    exact flat ((parabolic step).mp taken).2.1

/-- Three samples of a square lead to its minimum, if a golden-section step would be longer.  Three
samples of a line lead nowhere. -/
theorem nextStep_vertex_square :
    let s : Interval ℚ := ⟨0, 1, ⟨2 / 5, 1 / 400⟩, ⟨3 / 5, 9 / 400⟩, ⟨1 / 5, 1 / 16⟩⟩
    let t : Interval ℚ := ⟨0, 1, ⟨1 / 5, 1⟩, ⟨2 / 5, 2⟩, ⟨3 / 5, 3⟩⟩
    (∀ z, (derivative (s.best.parabola s.second s.third)).eval z = 0 ↔ z = 2 / 5 + 1 / 20) ∧
      s.nextStep (1 / 10) (1 / 100) = (.parabolic, 1 / 20) ∧
      s.nextStep (1 / 30) (1 / 100) = (.goldenSection, 1 / 30) ∧
      t.nextStep (1 / 10) (1 / 100) = (.goldenSection, 1 / 10) := by
  intro s t
  have single : s.SingleValued :=
    ⟨fun same => absurd same (by decide +kernel), fun same => absurd same (by decide +kernel),
      fun same => absurd same (by decide +kernel)⟩
  have single' : t.SingleValued :=
    ⟨fun same => absurd same (by decide +kernel), fun same => absurd same (by decide +kernel),
      fun same => absurd same (by decide +kernel)⟩
  have flat : ¬ t.Curved := fun curved =>
    (Interval.vertexDenominator_ne_zero_iff single').mpr curved (by decide +kernel)
  have taken : s.nextStep (1 / 10) (1 / 100) = (.parabolic, 1 / 20) := by decide +kernel
  obtain ⟨-, -, vertex, -⟩ := ((nextStep_vertex single (1 / 10) (1 / 100)).1 _).mp taken
  exact ⟨vertex, taken, by decide +kernel, (nextStep_vertex single' (1 / 10) (1 / 100)).2 flat⟩

end Nonlinear.Minimum
