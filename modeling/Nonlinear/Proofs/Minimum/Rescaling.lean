import Mathlib
import Nonlinear.Proofs.Minimum.Containment
import Nonlinear.Proofs.Search.Rescaling

/-! # Minimum searches in another unit

A minimum stays where it is when the values of a function are counted from another zero and in
another unit of the same direction.  Without rounding the search for it goes the same way: values
are only compared with each other, and the vertex of a parabola depends on quotients of their
differences.
-/

namespace Nonlinear.Minimum

open Scalar

/-- The event with its value changed. -/
def Event.mapValues {α : Type} (g : α → α) : Event α → Event α
  | step iteration x fx kind => step iteration x (g fx) kind
  | converged x fx counters => converged x (g fx) counters
  | limit iterations x => limit iterations x

/-- The interval with its values changed. -/
def Interval.mapValues {α : Type} (g : α → α) (s : Interval α) : Interval α :=
  ⟨s.a, s.b, s.best.mapValue g, s.second.mapValue g, s.third.mapValue g⟩

variable {K : Type} [Field K]

/-- A value in another unit and counted from another zero. -/
def rescale (c d y : K) : K := c * y + d

variable {c d : K}

theorem rescale_sub (y z : K) : rescale c d y - rescale c d z = c * (y - z) := by
  unfold rescale
  ring

namespace Interval

theorem vertexNumerator_mapValues (s : Interval K) :
    (s.mapValues (rescale c d)).vertexNumerator = c * s.vertexNumerator := by
  simp only [vertexNumerator, mapValues, Sample.mapValue, rescale_sub]
  ring

theorem vertexDenominator_mapValues (s : Interval K) :
    (s.mapValues (rescale c d)).vertexDenominator = c * s.vertexDenominator := by
  simp only [vertexDenominator, mapValues, Sample.mapValue, rescale_sub]
  ring

theorem toVertex_mapValues (nonzero : c ≠ 0) (s : Interval K) :
    (s.mapValues (rescale c d)).toVertex = s.toVertex := by
  rw [toVertex, vertexNumerator_mapValues, vertexDenominator_mapValues, ← mul_add,
    mul_div_mul_left _ _ nonzero]
  rfl

end Interval

variable [LinearOrder K] [IsStrictOrderedRing K]

theorem rescale_le_iff (positive : 0 < c) {y z : K} :
    rescale c d y ≤ rescale c d z ↔ y ≤ z := by
  rw [rescale, rescale, add_le_add_iff_right, mul_le_mul_iff_right₀ positive]

namespace Interval

variable [ExactConstants K]

theorem parabolicStep_mapValues (positive : 0 < c) (s : Interval K) (golden r : K) :
    (s.mapValues (rescale c d)).parabolicStep golden r = s.parabolicStep golden r := by
  have curved : (s.mapValues (rescale c d)).vertexDenominator ≠ 0 ↔ s.vertexDenominator ≠ 0 := by
    rw [vertexDenominator_mapValues]
    exact not_congr (mul_eq_zero_iff_left positive.ne')
  ext step
  rw [parabolicStep_eq_some_iff, parabolicStep_eq_some_iff, toVertex_mapValues positive.ne']
  exact and_congr curved (and_congr_right fun _ =>
    ⟨fun h => ⟨h.shorter, h.clear_left, h.clear_right⟩,
      fun h => ⟨h.shorter, h.clear_left, h.clear_right⟩⟩)

theorem propose_mapValues (positive : 0 < c) (s : Interval K) (r : K) (only : Bool) :
    (s.mapValues (rescale c d)).propose r only = s.propose r only := by
  simp only [propose, nextStep, parabolicStep_mapValues positive]
  rfl

theorem update_mapValues (positive : 0 < c) (s : Interval K) (p : Sample K) :
    (s.mapValues (rescale c d)).update (p.mapValue (rescale c d)) =
      (s.update p).mapValues (rescale c d) := by
  simp only [update, mapValues, Sample.mapValue, rescale_le_iff positive]
  split
  · rfl
  · split
    · rfl
    · split
      · rfl
      · rfl

end Interval

variable [ExactConstants K]

theorem scheme_carries (positive : 0 < c) (config : SearchConfig K) :
    (scheme config).Carries (rescale c d) (Event.mapValues (rescale c d))
      (Interval.mapValues (rescale c d)) (scheme config) := by
  have move (s : Interval K) : (s.mapValues (rescale c d)).move config = s.move config :=
    s.propose_mapValues positive _ _
  constructor
  case settled => exact fun _ => Iff.rfl
  case target =>
    intro s
    show (s.mapValues (rescale c d)).target config = s.target config
    rw [Interval.target, move]
    rfl
  case update => exact Interval.update_mapValues positive
  case answer => exact fun _ => rfl
  case stepped =>
    intro s i p
    show Event.step _ _ _ ((s.mapValues (rescale c d)).move config).1 = _
    rw [move]
    rfl
  case converged => exact fun _ _ => rfl
  case limit => exact fun _ _ => rfl

/-- A minimum search for a function in another unit, and counted from another zero, is the search
for the function itself with all values restated: it asks for the same points by steps of the same
kinds, and comes to the same solution or the same failure. -/
theorem search_rescaled (positive : 0 < c) (d : K) (config : SearchConfig K) (f : ScalarFunction K)
    (a b : K) :
    search config (f.mapValues (rescale c d)) a b =
      (search config f a b).translate
        (SearchEntry.mapValues (rescale c d) (Event.mapValues (rescale c d))) id
        (Solution.mapValue (rescale c d)) := by
  have finite (y : K) : isFinite (rescale c d y) = isFinite y := rfl
  unfold search
  refine Run.ite_translate Iff.rfl (fun _ => ?_) fun _ => ?_
  · rfl
  cases config.validate with
  | error fault => rfl
  | ok =>
      simp only [Run.bind_eq, f.sample_mapValues finite id (fun _ => rfl)
        (Event.mapValues (rescale c d))]
      apply Run.bind_translate
      intro p
      rw [iterate_eq_run, iterate_eq_run]
      exact (scheme_carries positive config).run finite id (fun _ => rfl) (fun _ => rfl) f
        config.maxIterations config.maxIterations (.around (ends a b).1 (ends a b).2 p) _

/-- The square, and three times the square above five. -/
theorem search_rescaled_square :
    let config : SearchConfig ℚ := ⟨1 / 10, 0, 20, false⟩
    let f : ScalarFunction ℚ := fun _ x => .ok (x * x)
    (search config f (-1) 2).outcome = .ok ⟨0, 0, ⟨5, 6, 0⟩⟩ ∧
      (search config (f.mapValues (rescale 3 5)) (-1) 2).outcome = .ok ⟨0, 5, ⟨5, 6, 0⟩⟩ := by
  intro config f
  have ok : (search config f (-1) 2).outcome = .ok ⟨0, 0, ⟨5, 6, 0⟩⟩ :=
    Run.ok_of_toOption (by decide +kernel)
  refine ⟨ok, ?_⟩
  rw [search_rescaled three_pos, Run.translate_of_ok ok]
  norm_num [Solution.mapValue, rescale]

end Nonlinear.Minimum
