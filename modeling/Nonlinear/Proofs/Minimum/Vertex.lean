import Mathlib
import Nonlinear.Minimum.Interval
import Nonlinear.Proofs.Scalar.Exact

/-! # The tests of a parabolic step

A parabolic step is a quotient whose denominator is turned to be not negative, and it is tested in
products with that denominator.  In exact arithmetic these are tests of the quotient itself, and no
step passes them where the denominator is zero.
-/

namespace Nonlinear.Minimum.Interval

variable {K : Type} [Field K]

/-- The vertex is half of this quotient away from the best sample. -/
def vertexNumerator (s : Interval K) : K :=
  (s.best.x - s.third.x) * ((s.best.x - s.third.x) * (s.best.y - s.second.y)) -
    (s.best.x - s.second.x) * ((s.best.x - s.second.x) * (s.best.y - s.third.y))

def vertexDenominator (s : Interval K) : K :=
  (s.best.x - s.third.x) * (s.best.y - s.second.y) -
    (s.best.x - s.second.x) * (s.best.y - s.third.y)

/-- The way from the best sample to the vertex. -/
def toVertex (s : Interval K) : K :=
  -(s.vertexNumerator / (s.vertexDenominator + s.vertexDenominator))

variable [LinearOrder K]

/-- A step is shorter than the golden-section step and stays clear of both ends. -/
structure Allows (s : Interval K) (golden r step : K) : Prop where
  shorter : |step| < |golden|
  clear_left : s.a - s.best.x + 2 * r < step
  clear_right : step < s.b - s.best.x - 2 * r

variable [ExactConstants K] [IsStrictOrderedRing K] {s : Interval K} {golden r step : K}

omit [ExactConstants K] in
/-- The same of the point that the step leads to. -/
theorem allows_iff : s.Allows golden r step ↔
    s.a + 2 * r < s.best.x + step ∧ s.best.x + step < s.b - 2 * r ∧ |step| < |golden| := by
  constructor
  · rintro ⟨shorter, left, right⟩
    exact ⟨by linarith, by linarith, shorter⟩
  · rintro ⟨left, right, shorter⟩
    exact ⟨shorter, by linarith, by linarith⟩

omit [ExactConstants K] in
/-- The tests in products, with a denominator that is not negative. -/
theorem quotient_eq_some_iff {p q : K} (nonneg : 0 ≤ q) :
    (if |p| < |golden * q| ∧ q * (s.a - s.best.x + 2 * r) < p ∧
        p < q * (s.b - s.best.x - 2 * r) then some (p / q) else none) = some step ↔
      q ≠ 0 ∧ step = p / q ∧ s.Allows golden r step := by
  rw [Option.ite_none_right_eq_some, Option.some_inj]
  rcases nonneg.eq_or_lt with rfl | pos
  · rw [mul_zero, abs_zero]
    exact iff_of_false (fun passed => absurd passed.1.1 (not_lt_of_ge (abs_nonneg p)))
      fun divides => divides.1 rfl
  · have short : |p| < |golden * q| ↔ |p / q| < |golden| := by
      rw [abs_div, abs_mul, div_lt_iff₀ (abs_pos.mpr pos.ne')]
    rw [short, ← lt_div_iff₀' pos, ← div_lt_iff₀' pos]
    constructor
    · rintro ⟨⟨shorter, left, right⟩, rfl⟩
      exact ⟨pos.ne', rfl, shorter, left, right⟩
    · rintro ⟨-, rfl, allowed⟩
      exact ⟨⟨allowed.shorter, allowed.clear_left, allowed.clear_right⟩, rfl⟩

/-- A parabolic step is the way to the vertex, if there is one and the step is allowed. -/
theorem parabolicStep_eq_some_iff : s.parabolicStep golden r = some step ↔
    s.vertexDenominator ≠ 0 ∧ step = s.toVertex ∧ s.Allows golden r step := by
  have two : (2.0 : K) = 2 := by norm_num
  unfold parabolicStep
  dsimp only
  rw [literal_zero, two]
  have double : 2 * s.vertexDenominator ≠ 0 ↔ s.vertexDenominator ≠ 0 :=
    not_congr (mul_eq_zero_iff_left two_ne_zero)
  split
  · rename_i upward
    refine (quotient_eq_some_iff upward.le).trans ?_
    rw [toVertex, ← two_mul, neg_div]
    exact and_congr_left' double
  · rename_i down
    refine (quotient_eq_some_iff (neg_nonneg.mpr (not_lt.mp down))).trans ?_
    rw [toVertex, ← two_mul, neg_ne_zero, div_neg]
    exact and_congr_left' double

/-- Without a vertex there is no parabolic step. -/
theorem parabolicStep_of_flat (flat : s.vertexDenominator = 0) :
    s.parabolicStep golden r = none :=
  Option.eq_none_iff_forall_ne_some.mpr fun _ step =>
    (parabolicStep_eq_some_iff.mp step).1 flat

end Nonlinear.Minimum.Interval
