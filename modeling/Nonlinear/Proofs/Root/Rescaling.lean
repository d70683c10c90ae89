import Mathlib
import Nonlinear.Proofs.Root.Containment
import Nonlinear.Proofs.Search.Rescaling

/-! # Root searches in another unit

Multiplying a function by a constant that is not zero moves none of its roots.  Without rounding it
does not disturb the search for them either: sizes are compared with each other and with a tolerance
in the same unit, interpolation uses quotients of values only, and a negative factor exchanges the
two signs everywhere.
-/

namespace Nonlinear

open Scalar

/-- The configuration for values in another unit. -/
def SearchConfig.scaled {K : Type} [Scalar K] (c : K) (config : SearchConfig K) : SearchConfig K :=
  { config with functionTolerance := magnitude c * config.functionTolerance }

namespace Root

/-- The event with its value changed. -/
def Event.mapValues {α : Type} (g : α → α) : Event α → Event α
  | step iteration x fx kind => step iteration x (g fx) kind
  | converged x fx counters => converged x (g fx) counters
  | event => event

/-- The bracket with its values changed. -/
def Bracket.mapValues {α : Type} (g : α → α) (s : Bracket α) : Bracket α :=
  ⟨s.previous.mapValue g, s.best.mapValue g, s.counter.mapValue g⟩

variable {K : Type} [Field K] [LinearOrder K] [IsStrictOrderedRing K] {c : K}

section Comparisons

variable {y z t : K}

theorem abs_scaled_lt (nonzero : c ≠ 0) : |c * y| < |c * z| ↔ |y| < |z| := by
  rw [abs_mul, abs_mul]
  exact mul_lt_mul_iff_right₀ (abs_pos.mpr nonzero)

theorem abs_scaled_le (nonzero : c ≠ 0) : |c * y| ≤ |c| * t ↔ |y| ≤ t := by
  rw [abs_mul]
  exact mul_le_mul_iff_right₀ (abs_pos.mpr nonzero)

/-- Numbers of one sign keep a common sign, if not the same one. -/
theorem scaled_mul_pos (nonzero : c ≠ 0) : 0 < c * y * (c * z) ↔ 0 < y * z := by
  have square : 0 < c * c := mul_self_pos.mpr nonzero
  rw [mul_mul_mul_comm]
  exact mul_pos_iff_of_pos_left square

variable [ExactConstants K]

/-- Numbers other than zero have one sign bit if they have one sign. -/
theorem isNegative_beq_iff (hy : y ≠ 0) (hz : z ≠ 0) :
    (isNegative y == isNegative z) = true ↔ 0 < y * z := by
  have bit (x : K) : isNegative x = decide (x < 0) := rfl
  rw [beq_iff_eq, bit, bit, decide_eq_decide]
  rcases lt_or_gt_of_ne hy with y_neg | y_pos
  -- A negative `y` settles the sign of `z` at once; beside a positive one `z` must not be zero.
  · rw [iff_true_left y_neg]
    exact ⟨mul_pos_of_neg_of_neg y_neg, fun pos => neg_of_mul_pos_right pos y_neg.le⟩
  · rw [iff_false_left (not_lt_of_gt y_pos), not_lt, mul_pos_iff_of_pos_left y_pos]
    exact ⟨fun le => lt_of_le_of_ne le hz.symm, fun pos => pos.le⟩

end Comparisons

variable [ExactConstants K]

namespace Bracket

variable (nonzero : c ≠ 0) (s : Bracket K)

include nonzero

theorem keepBest_mapValues : (s.mapValues (c * ·)).keepBest = s.keepBest.mapValues (c * ·) := by
  rw [keepBest_exact, keepBest_exact]
  simp only [mapValues, Sample.mapValue, abs_scaled_lt nonzero]
  split
  · rfl
  · rfl

theorem converged_mapValues (r t : K) :
    (s.mapValues (c * ·)).converged r (|c| * t) ↔ s.converged r t :=
  or_congr_right (abs_scaled_le nonzero)

omit [IsStrictOrderedRing K] in
/-- The interpolants have the same zero. -/
theorem interpolate_mapValues : (s.mapValues (c * ·)).interpolate = s.interpolate := by
  have quotient (y z : K) : c * y / (c * z) = y / z := mul_div_mul_left y z nonzero
  simp only [interpolate, mapValues, Sample.mapValue, quotient]
  rfl

theorem propose_mapValues (r l : K) (only : Bool) :
    (s.mapValues (c * ·)).propose r l only = s.propose r l only := by
  have improved : magnitude (s.mapValues (c * ·)).previous.y ≤
      magnitude (s.mapValues (c * ·)).best.y ↔ magnitude s.previous.y ≤ magnitude s.best.y :=
    not_lt.symm.trans ((not_congr (abs_scaled_lt nonzero)).trans not_lt)
  simp only [propose, interpolate_mapValues nonzero, improved]
  rfl

theorem advance_mapValues (p : Sample K) :
    (s.mapValues (c * ·)).advance (p.mapValue (c * ·)) = (s.advance p).mapValues (c * ·) := by
  rw [advance_exact, advance_exact]
  simp only [mapValues, Sample.mapValue, scaled_mul_pos nonzero]
  split
  · rfl
  · rfl

end Bracket

theorem scheme_carries (nonzero : c ≠ 0) (config : SearchConfig K) :
    (scheme config).Carries (c * ·) (Event.mapValues (c * ·)) (Bracket.mapValues (c * ·))
      (scheme (config.scaled c)) := by
  have move (s : Bracket K) :
      (s.mapValues (c * ·)).move (config.scaled c) = s.move config := by
    rw [Bracket.move, s.keepBest_mapValues nonzero, Bracket.propose_mapValues nonzero]
    rfl
  constructor
  case settled =>
    intro s
    show (s.mapValues (c * ·)).keepBest.converged _ (|c| * config.functionTolerance) ↔ _
    rw [s.keepBest_mapValues nonzero]
    exact Bracket.converged_mapValues nonzero _ _ _
  case target =>
    intro s
    show (s.mapValues (c * ·)).target (config.scaled c) = s.target config
    rw [Bracket.target, move, s.keepBest_mapValues nonzero]
    rfl
  case update =>
    intro s p
    show (s.mapValues (c * ·)).keepBest.advance _ = _
    rw [s.keepBest_mapValues nonzero]
    exact Bracket.advance_mapValues nonzero _ _
  case answer =>
    intro s
    exact congrArg Bracket.best (s.keepBest_mapValues nonzero)
  case stepped =>
    intro s i p
    show Event.step _ _ _ ((s.mapValues (c * ·)).move (config.scaled c)).1 = _
    rw [move]
    rfl
  case converged => exact fun _ _ => rfl
  case limit => exact fun _ _ => rfl

theorem validate_scaled (nonzero : c ≠ 0) (config : SearchConfig K) :
    (config.scaled c).validate = config.validate := by
  have tolerated : (0.0 : K) ≤ (config.scaled c).functionTolerance ↔
      (0.0 : K) ≤ config.functionTolerance := by
    rw [literal_zero]
    exact mul_nonneg_iff_of_pos_left (abs_pos.mpr nonzero)
  simp only [SearchConfig.validate, tolerated]
  rfl

/-- A root search for a multiple of a function, with the tolerance for its values in the same
unit, is the search for the function itself with all values multiplied: it asks for the same points
by steps of the same kinds, and comes to the same solution or the same failure. -/
theorem search_scaled (nonzero : c ≠ 0) (config : SearchConfig K) (f : ScalarFunction K) (a b : K) :
    search (config.scaled c) (f.mapValues (c * ·)) a b =
      (search config f a b).translate (SearchEntry.mapValues (c * ·) (Event.mapValues (c * ·)))
        (Failure.mapValues (c * ·)) (Solution.mapValue (c * ·)) := by
  have finite (y : K) : isFinite (c * y) = isFinite y := rfl
  have sampled := f.sample_mapValues finite (.mapValues (c * ·)) (fun _ => rfl)
    (Event.mapValues (c * ·))
  unfold search
  refine Run.ite_translate Iff.rfl (fun _ => ?_) fun _ => ?_
  · rfl
  rw [validate_scaled nonzero]
  cases valid : config.validate with
  | error fault => rfl
  | ok =>
      have tolerance := (SearchConfig.bounds_of_valid valid).2
      -- A sign bit tells the sign of what is not zero; no value within the tolerance gets there.
      have far {y : K} (h : ¬ |y| ≤ config.functionTolerance) : y ≠ 0 :=
        abs_pos.mp (tolerance.trans_lt (not_le.mp h))
      simp only [Run.bind_eq, sampled]
      apply Run.bind_translate
      intro p
      apply Run.bind_translate
      intro q
      refine Run.ite_translate (abs_scaled_le nonzero) (fun _ => ?_) fun left => ?_
      · rfl
      refine Run.ite_translate (abs_scaled_le nonzero) (fun _ => ?_) fun right => ?_
      · rfl
      refine Run.ite_translate ?_ (fun _ => ?_) fun _ => ?_
      · have hp := far left
        have hq := far right
        rw [isNegative_beq_iff hp hq]
        exact (isNegative_beq_iff (mul_ne_zero nonzero hp) (mul_ne_zero nonzero hq)).trans
          (scaled_mul_pos nonzero)
      · rfl
      rw [iterate_eq_run, iterate_eq_run]
      exact (scheme_carries nonzero config).run finite (.mapValues (c * ·)) (fun _ => rfl)
        (fun _ => rfl) f config.maxIterations config.maxIterations (.between p q) _

/-- The square root of two in a unit with the other sign, and a function that has no root. -/
theorem search_scaled_sqrt_two :
    let config : SearchConfig ℚ := ⟨1 / 10, 0, 10, false⟩
    let f : ScalarFunction ℚ := fun _ x => .ok (x * x - 2)
    let g : ScalarFunction ℚ := fun _ x => .ok (x * x + 1)
    (search config f 1 2).outcome = .ok ⟨149 / 105, 151 / 11025, ⟨2, 4, 0⟩⟩ ∧
      (search (config.scaled (-2)) (f.mapValues (-2 * ·)) 1 2).outcome =
        .ok ⟨149 / 105, -302 / 11025, ⟨2, 4, 0⟩⟩ ∧
      (search config g 1 2).outcome = .error (.invalidBracket 1 2 2 5) ∧
      (search (config.scaled (-2)) (g.mapValues (-2 * ·)) 1 2).outcome =
        .error (.invalidBracket 1 2 (-4) (-10)) := by
  intro config f g
  have nonzero : (-2 : ℚ) ≠ 0 := by norm_num
  have ok : (search config f 1 2).outcome = .ok ⟨149 / 105, 151 / 11025, ⟨2, 4, 0⟩⟩ :=
    Run.ok_of_toOption (by decide +kernel)
  have error : (search config g 1 2).outcome = .error (.invalidBracket 1 2 2 5) := by
    have sampled : Sampled config g 1 2 ⟨1, 2⟩ ⟨2, 5⟩ :=
      ⟨rfl, rfl, by decide +kernel, ⟨rfl, by norm_num [g], rfl⟩, ⟨rfl, by norm_num [g], rfl⟩⟩
    rw [sampled.search_eq, Run.after_outcome, proceed, if_neg (by decide +kernel),
      if_neg (by decide +kernel), if_pos (by decide +kernel)]
  refine ⟨ok, ?_, error, ?_⟩
  · rw [search_scaled nonzero, Run.translate_of_ok ok]
    norm_num [Solution.mapValue]
  · rw [search_scaled nonzero, Run.translate_of_error error]
    norm_num [Failure.mapValues]

end Root

end Nonlinear
