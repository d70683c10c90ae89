import Mathlib
import Nonlinear.Proofs.Config
import Nonlinear.Proofs.Minimum.Course
import Nonlinear.Proofs.Search.Rounded

/-! # The minimum search in rounded arithmetic

An interval that is not settled leaves room for a step of one resolution on the side of the next
sample, although midpoint and half length are rounded.  So the samples stay in the interval, as
long as sums of two of its numbers are finite and the resolution shows next to them.
-/

namespace Nonlinear.Minimum

open Scalar BinaryScalar FloatingPoint

variable {α : Type} [Scalar α] [BinaryScalar α]

/-- An interval around its best sample, of numbers that can be doubled. -/
structure Sound (s : Interval α) : Prop where
  left : isFinite s.a = true
  right : isFinite s.b = true
  best : isFinite s.best.x = true
  low : real s.a ≤ real s.best.x
  high : real s.best.x ≤ real s.b
  double_left : 2 * |real s.a| < limit (format α)
  double_right : 2 * |real s.b| < limit (format α)

/-- Twice the larger end. -/
def bound (s : Interval α) : ℚ := 2 * max |real s.a| |real s.b|

theorem grid_bound (s : Interval α) : Grid (format α) (bound s) := by
  unfold bound
  rcases max_choice |real s.a| |real s.b| with eq | eq <;> rw [eq]
  · exact (grid_real s.a).abs.double
  · exact (grid_real s.b).abs.double

theorem two_abs_le {s : Interval α} {v : ℚ} (low : real s.a ≤ v) (high : v ≤ real s.b) :
    2 * |v| ≤ bound s := by
  unfold bound
  linarith [abs_le_max_abs_abs low high]

namespace Sound

variable {s : Interval α} {z : α} {q v : ℚ}

theorem bound_lt (h : Sound s) : bound s < limit (format α) := by
  unfold bound
  rcases max_choice |real s.a| |real s.b| with eq | eq <;> rw [eq]
  · exact h.double_left
  · exact h.double_right

theorem isFinite (h : Sound s) (rounded : Rounded z q) (le : |q| ≤ bound s) :
    Scalar.isFinite z = true :=
  rounded.isFinite_of_abs (grid_bound s) h.bound_lt le

theorem isFinite_sub {x y : α} (h : Sound s) (hx : Scalar.isFinite x = true)
    (hy : Scalar.isFinite y = true) (low_x : real s.a ≤ real x) (high_x : real x ≤ real s.b)
    (low_y : real s.a ≤ real y) (high_y : real y ≤ real s.b) :
    Scalar.isFinite (y - x) = true := by
  refine h.isFinite (sub_rounded hy hx) ((abs_sub _ _).trans ?_)
  linarith [two_abs_le low_x high_x, two_abs_le low_y high_y]

variable [BinaryConstants α]

/-- The midpoint is on the same side of every number as the middle before rounding. -/
theorem midpoint_spec (h : Sound s) : Scalar.isFinite s.midpoint = true ∧
    (∀ v, Grid (format α) v → 2 * v ≤ real s.a + real s.b → v ≤ real s.midpoint) ∧
    ∀ v, Grid (format α) v → real s.a + real s.b ≤ 2 * v → real s.midpoint ≤ v := by
  have sum := add_rounded h.left h.right
  have order : real s.a ≤ real s.b := h.low.trans h.high
  have small : |real s.a + real s.b| ≤ bound s := by
    refine (abs_add_le _ _).trans ?_
    linarith [two_abs_le (le_refl _) order, two_abs_le order (le_refl _)]
  have sum_finite := h.isFinite sum small
  have sum_le := sum.abs_le_grid (grid_bound s) small
  have mid : Rounded s.midpoint (real (s.a + s.b) / 2) := half_rounded sum_finite
  obtain ⟨small_low, small_high⟩ := abs_le.mp small
  obtain ⟨sum_low, sum_high⟩ := abs_le.mp sum_le
  have lt := h.bound_lt
  refine ⟨h.isFinite mid ?_, ?_, ?_⟩
  · rw [abs_div, abs_two]
    linarith [abs_nonneg (real (s.a + s.b))]
  · intro v grid le
    have above : 2 * v ≤ real (s.a + s.b) := by
      rw [sum.real]
      exact grid_le_clip grid.double (by linarith) le
    rw [mid.real]
    exact grid_le_clip grid (by linarith) (by linarith)
  · intro v grid le
    have below : real (s.a + s.b) ≤ 2 * v := by
      rw [sum.real]
      exact clip_le_grid grid.double (by linarith) le
    rw [mid.real]
    exact clip_le_grid grid (by linarith) (by linarith)

theorem half_length_spec (h : Sound s) : Rounded (s.b - s.a) (real s.b - real s.a) ∧
    Rounded ((s.b - s.a) / 2.0) (real (s.b - s.a) / 2) ∧
      Scalar.isFinite ((s.b - s.a) / 2.0) = true := by
  have order : real s.a ≤ real s.b := h.low.trans h.high
  have length := sub_rounded h.right h.left
  have nonneg : 0 ≤ real (s.b - s.a) := length.nonneg (sub_nonneg.mpr order)
  have finite := h.isFinite_sub h.left h.right (le_refl _) order order (le_refl _)
  have half := half_rounded finite
  exact ⟨length, half, half.isFinite_of_le finite (by linarith) (by linarith)⟩

/-- An interval is settled where its middle is near the best sample and its ends are not far. -/
theorem converged_of_near {r : α} {d e : ℚ} (h : Sound s)
    (finite : Scalar.isFinite (2.0 * r) = true) (grid_d : Grid (format α) d)
    (grid_e : Grid (format α) e) (nonneg_e : 0 ≤ e)
    (near : |real s.best.x - real s.midpoint| ≤ d) (short : real s.b - real s.a ≤ 2 * e)
    (room : d + e ≤ real (2.0 * r)) : s.converged r := by
  obtain ⟨length, half, half_finite⟩ := h.half_length_spec
  have length_le : real (s.b - s.a) ≤ 2 * e := length.le_grid grid_e.double (by linarith) short
  have half_le : real ((s.b - s.a) / 2.0) ≤ e := half.le_grid grid_e nonneg_e (by linarith)
  have offset := sub_rounded h.best h.midpoint_spec.1
  have offset_le := offset.abs_le_grid grid_d near
  have gap := sub_rounded finite half_finite
  have gap_ge : d ≤ real (2.0 * r - (s.b - s.a) / 2.0) := by
    rw [gap.real]
    refine grid_le_clip grid_d ?_ (by linarith)
    linarith [(abs_le.mp (abs_real_le ((2.0 : α) * r))).2]
  rw [Interval.converged, le_iff_real ((isNaN_magnitude _).trans offset.isNaN) gap.isNaN,
    real_magnitude]
  exact offset_le.trans gap_ge

theorem converged_of_infinite {r : α} (h : Sound s) (infinite : Infinite ((2.0 : α) * r))
    (nonneg : 0 ≤ real (2.0 * r)) : s.converged r := by
  have number := isNaN_sub_of_finite infinite.isNaN h.half_length_spec.2.2
  have gap : real (2.0 * r - (s.b - s.a) / 2.0) = limit (format α) := by
    rw [real, infinite.sub number, ← real, ← infinite.abs_real, abs_of_nonneg nonneg]
  have offset := sub_rounded h.best h.midpoint_spec.1
  rw [Interval.converged, le_iff_real ((isNaN_magnitude _).trans offset.isNaN) number, gap]
  exact (abs_le.mp (abs_real_le _)).2

end Sound

section Resolution

variable [BinaryConstants α] {config : SearchConfig α} {s : Interval α}

/-- The resolution shows next to the best sample and next to every number far smaller than the
tolerance. -/
structure Resolves (config : SearchConfig α) (s : Interval α) : Prop where
  isNaN : Scalar.isNaN (s.accuracy config) = false
  above : ∃ y, Grid (format α) y ∧ real s.best.x < y ∧
    y ≤ real s.best.x + real (s.accuracy config)
  le : ∀ v, Grid (format α) v → v ≤ real config.tolerance / 3 → v ≤ real (s.accuracy config)
  three_le : 3 * 2 ^ (format α).minExponent ≤ real (s.accuracy config)

/-- Dividing the tolerance by three does not take it below a number. -/
theorem third_spec {x : α} (finite : isFinite x = true) (nonneg : 0 ≤ real x) :
    isFinite (x / 3.0) = true ∧ 0 ≤ real (x / 3.0) ∧
      ∀ v, Grid (format α) v → v ≤ real x / 3 → v ≤ real (x / 3.0) := by
  have three := BinaryConstants.three (α := α)
  have third := div_rounded finite three.isFinite (by rw [three.real]; exact three_ne_zero)
  rw [three.real] at third
  refine ⟨third.isFinite_of_le finite (by linarith) (by linarith), third.nonneg (by linarith),
    fun v grid le => ?_⟩
  rw [third.real]
  refine grid_le_clip grid ?_ le
  linarith [(abs_le.mp (abs_real_le x)).2]

/-- The part of the resolution that grows with a number is a unit in its last place. -/
theorem scaled_spec {x : α} (finite : isFinite x = true) :
    isFinite (sqrtEpsilon * magnitude x) = true ∧ 0 ≤ real (sqrtEpsilon * magnitude x) ∧
      (real x ≠ 0 → (format α).minExponent < unit (format α) (real x) →
        2 ^ unit (format α) (real x) ≤ real (sqrtEpsilon * magnitude x)) := by
  have factor_ge := BinaryConstants.sqrtEpsilon_ge (α := α)
  have factor_le := BinaryConstants.sqrtEpsilon_le (α := α)
  have factor_nonneg : 0 ≤ real (sqrtEpsilon : α) := (two_zpow_pos _).le.trans factor_ge
  have factor_finite := BinaryConstants.isFinite_sqrtEpsilon (α := α)
  have finite' : isFinite (magnitude x) = true := (LawfulScalar.isFinite_magnitude _).trans finite
  obtain ⟨product_finite, nonneg⟩ := mul_le_right factor_finite finite' factor_nonneg factor_le
    (by rw [real_magnitude]; exact abs_nonneg _)
  refine ⟨product_finite, nonneg, fun nonzero above => ?_⟩
  have place : 2 ^ unit (format α) (real x) ≤ real (sqrtEpsilon : α) * |real x| := by
    exact (unit_le_part (unit_le_abs nonzero above)).trans
      (mul_le_mul_of_nonneg_right factor_ge (abs_nonneg _))
  have inside : real (sqrtEpsilon : α) * |real x| ≤ limit (format α) :=
    (mul_le_of_le_one_left (abs_nonneg _) factor_le).trans (abs_real_le x)
  rw [(mul_rounded factor_finite finite').real, real_magnitude]
  exact grid_le_clip (.two_zpow above.le) (place.trans inside) place

theorem grid_three : Grid (format α) (3 * 2 ^ (format α).minExponent) := by
  refine ⟨3, (format α).minExponent, ?_, le_refl _, by push_cast; rfl⟩
  calc |(3 : ℤ)| < 2 ^ 3 := by norm_num
    _ ≤ 2 ^ (format α).mantissaBits := pow_le_pow_right₀ one_le_two BinaryConstants.precise

theorem resolves (valid : config.validate = .ok ()) (best : isFinite s.best.x = true)
    (fine : 9 * 2 ^ (format α).minExponent ≤ real config.tolerance) : Resolves config s := by
  obtain ⟨⟨-, tolerance_finite⟩, -, -⟩ := SearchConfig.validate_ok_iff.mp valid
  have smallest : (0 : ℚ) < 2 ^ (format α).minExponent := two_zpow_pos _
  obtain ⟨third_finite, third_nonneg, third_le⟩ := third_spec tolerance_finite (by linarith)
  obtain ⟨scaled_finite, scaled_nonneg, scaled_le⟩ := scaled_spec best
  have sum : Rounded (s.accuracy config) (real (sqrtEpsilon * magnitude s.best.x) +
      real (config.tolerance / 3.0)) := add_rounded scaled_finite third_finite
  have le (v : ℚ) (grid : Grid (format α) v) (small : v ≤ real config.tolerance / 3) :
      v ≤ real (s.accuracy config) :=
    (third_le v grid small).trans (sum.le_real (by linarith))
  have three_le := le _ grid_three (by linarith)
  refine ⟨sum.isNaN, ?_, le, three_le⟩
  by_cases zero : real s.best.x = 0
  · refine ⟨2 ^ (format α).minExponent, .two_zpow (le_refl _), ?_, ?_⟩ <;> rw [zero] <;> linarith
  refine ⟨_, (grid_real s.best.x).add_unit, lt_add_of_pos_right _ (two_zpow_pos _), ?_⟩
  rw [add_le_add_iff_left]
  rcases (minExponent_le_unit (format α) (real s.best.x)).lt_or_eq with above | least
  · exact (scaled_le zero above).trans (sum.le_real (by linarith))
  · rw [← least]
    linarith

theorem double_spec {r : α} (number : isNaN r = false) (pos : 0 < real r) :
    (Infinite ((2.0 : α) * r) ∧ 0 ≤ real (2.0 * r)) ∨
      (isFinite r = true ∧ isFinite ((2.0 : α) * r) = true ∧ real (2.0 * r) = 2 * real r) := by
  have two := BinaryConstants.two (α := α)
  rcases finite_or_infinite number with finite | infinite
  · have product := mul_rounded two.isFinite finite
    rw [two.real] at product
    rcases finite_or_infinite product.isNaN with finite' | infinite
    · refine .inr ⟨finite, finite', ?_⟩
      have small := (isFinite_iff_real.mp finite').2
      rw [product.real] at small
      rw [product.real, clip_of_lt small, nearest_of_grid (grid_real r).double]
    · exact .inl ⟨infinite, product.nonneg (by linarith)⟩
  · have same : value ((2.0 : α) * r) = value r :=
      infinite.mul_pos_right (by rw [two.real]; exact two_pos)
    have same' : real ((2.0 : α) * r) = real r := congrArg (reach _) same
    refine .inl ⟨infinite_iff.mpr ?_, by rw [same']; exact pos.le⟩
    rw [same]
    exact infinite_iff.mp infinite

variable (h : Sound s) (resolves : Resolves config s) (unsettled : ¬ s.settled config)

omit [BinaryConstants α] in
include resolves in
theorem Resolves.pos : 0 < real (s.accuracy config) := by
  have smallest : (0 : ℚ) < 2 ^ (format α).minExponent := two_zpow_pos _
  linarith [resolves.three_le]

include h resolves unsettled

theorem unsettled_double : isFinite (s.accuracy config) = true ∧
    isFinite ((2.0 : α) * s.accuracy config) = true ∧
      real (2.0 * s.accuracy config) = 2 * real (s.accuracy config) := by
  rcases double_spec resolves.isNaN resolves.pos with ⟨infinite, nonneg⟩ | doubled
  · exact absurd (h.converged_of_infinite infinite nonneg) unsettled
  · exact doubled

/-- Short of the resolution on both sides, an interval would be settled. -/
theorem not_near (near : |real s.best.x - real s.midpoint| ≤ real (s.accuracy config)) :
    2 * real (s.accuracy config) < real s.b - real s.a := by
  obtain ⟨-, finite, double⟩ := unsettled_double h resolves unsettled
  by_contra short
  refine unsettled (h.converged_of_near finite (grid_real _) (grid_real _) resolves.pos.le near
    (not_lt.mp short) ?_)
  linarith

/-- Where the next sample is taken above the best one, there is room for it. -/
theorem room_above (below : s.best.x < s.midpoint) :
    real (s.accuracy config) ≤ real s.b - real s.best.x := by
  obtain ⟨finite, le_mid, mid_le⟩ := h.midpoint_spec
  rw [lt_iff_real (isNaN_of_isFinite h.best) (isNaN_of_isFinite finite)] at below
  have order : real s.a ≤ real s.b := h.low.trans h.high
  have middle : 2 * real s.best.x ≤ real s.a + real s.b := by
    by_contra above
    exact absurd (mid_le _ (grid_real s.best.x) (not_le.mp above).le) (not_le_of_gt below)
  have inside : real s.midpoint ≤ real s.b := mid_le _ (grid_real s.b) (by linarith)
  by_contra short
  rw [not_le] at short
  have near : |real s.best.x - real s.midpoint| ≤ real (s.accuracy config) := by
    rw [abs_of_nonpos (by linarith)]
    linarith
  linarith [not_near h resolves unsettled near]

/-- Where it is taken below, there is room, too.  The best sample may be the rounded midpoint
while the middle is above it, but not by more than the resolution. -/
theorem room_below (above : ¬ s.best.x < s.midpoint) :
    real (s.accuracy config) ≤ real s.best.x - real s.a := by
  obtain ⟨finite, le_mid, mid_le⟩ := h.midpoint_spec
  rw [lt_iff_real (isNaN_of_isFinite h.best) (isNaN_of_isFinite finite), not_lt] at above
  have order : real s.a ≤ real s.b := h.low.trans h.high
  have inside : real s.a ≤ real s.midpoint := le_mid _ (grid_real s.a) (by linarith)
  by_contra short
  rw [not_le] at short
  rcases above.lt_or_eq with further | same
  · have middle : real s.a + real s.b ≤ 2 * real s.best.x := by
      by_contra below
      exact absurd (le_mid _ (grid_real s.best.x) (not_le.mp below).le) (not_le_of_gt further)
    have near : |real s.best.x - real s.midpoint| ≤ real (s.accuracy config) := by
      rw [abs_of_nonneg (by linarith)]
      linarith
    linarith [not_near h resolves unsettled near]
  · obtain ⟨y, grid, y_above, y_near⟩ := resolves.above
    have middle : real s.a + real s.b < 2 * y := by
      by_contra beyond
      linarith [le_mid y grid (not_lt.mp beyond)]
    obtain ⟨-, finite', double⟩ := unsettled_double h resolves unsettled
    refine unsettled (h.converged_of_near finite' .zero (grid_real (2.0 * s.accuracy config))
      (by linarith [resolves.pos]) ?_ ?_ (zero_add _).le)
    · rw [same, sub_self, abs_zero]
    · linarith

/-- A step on the way to a point with room for the resolution. -/
structure Toward (config : SearchConfig α) (s : Interval α) (t m : α) : Prop where
  finite : isFinite m = true
  mem : real m ∈ Set.uIcc 0 (real t - real s.best.x)
  room : real (s.accuracy config) ≤ |real t - real s.best.x|
  down : real m = 0 → real t - real s.best.x ≤ 0

omit h unsettled in
/-- A third of the resolution is not lost. -/
theorem golden_pos {d : α} (finite : isFinite d = true)
    (far : real (s.accuracy config) ≤ real d) : 0 < real (golden * d) := by
  have golden_ge := BinaryConstants.golden_ge (α := α)
  have smallest : (0 : ℚ) < 2 ^ (format α).minExponent := two_zpow_pos _
  have seen : (2 : ℚ) ^ (format α).minExponent ≤ real (golden : α) * real d := by
    calc (2 : ℚ) ^ (format α).minExponent ≤ 1 / 3 * real (s.accuracy config) := by
          linarith [resolves.three_le]
      _ ≤ real (golden : α) * real d :=
          mul_le_mul golden_ge far resolves.pos.le (by linarith)
  have small : (2 : ℚ) ^ (format α).minExponent ≤ limit (format α) := by
    linarith [resolves.three_le, (abs_le.mp (abs_real_le (s.accuracy config))).2]
  rw [(mul_rounded BinaryConstants.isFinite_golden finite).real]
  exact smallest.trans_le (grid_le_clip (.two_zpow (le_refl _)) small seen)

theorem golden_toward : ∃ t, (t = s.a ∨ t = s.b) ∧ Toward config s t s.goldenStep := by
  have order : real s.a ≤ real s.b := h.low.trans h.high
  have golden_finite := BinaryConstants.isFinite_golden (α := α)
  have golden_le := BinaryConstants.golden_le (α := α)
  have golden_nonneg : 0 ≤ real (golden : α) := by linarith [BinaryConstants.golden_ge (α := α)]
  unfold Interval.goldenStep
  by_cases below : s.best.x < s.midpoint
  · rw [if_pos below]
    have room := room_above h resolves unsettled below
    have distance := h.isFinite_sub h.best h.right h.low h.high order (le_refl _)
    obtain ⟨finite, mem⟩ := fraction_mem h.best h.right distance
      (mul_rounded golden_finite distance) golden_nonneg golden_le
    have positive := golden_pos resolves distance ((sub_rounded h.right h.best).le_real room)
    exact ⟨s.b, .inr rfl, finite, mem, room.trans (le_abs_self _),
      fun zero => absurd zero positive.ne'⟩
  · rw [if_neg below]
    have room := room_below h resolves unsettled below
    have distance := h.isFinite_sub h.best h.left h.low h.high (le_refl _) order
    obtain ⟨finite, mem⟩ := fraction_mem h.best h.left distance
      (mul_rounded golden_finite distance) golden_nonneg golden_le
    refine ⟨s.a, .inl rfl, finite, mem, ?_, fun _ => sub_nonpos.mpr h.low⟩
    rw [abs_sub_comm]
    exact room.trans (le_abs_self _)

end Resolution

section Parabola

variable {s : Interval α} {r m : α}

/-- What an accepted vertex fulfils. -/
structure Vertex (s : Interval α) (r p q : α) : Prop where
  nonneg : isNaN q = false → 0 ≤ real q
  short : magnitude p < magnitude (s.goldenStep * q)
  clear_left : q * (s.a - s.best.x + 2.0 * r) < p
  clear_right : p < q * (s.b - s.best.x - 2.0 * r)

theorem vertex_of_some (h : s.parabolicStep s.goldenStep r = some m) :
    ∃ p q, m = p / q ∧ Vertex s r p q := by
  have guarded (p q : α) (nonneg : isNaN q = false → 0 ≤ real q) :
      (if magnitude p < magnitude (s.goldenStep * q) ∧
        q * (s.a - s.best.x + (2.0 : α) * r) < p ∧
        p < q * (s.b - s.best.x - (2.0 : α) * r) then some (p / q) else none) = some m →
      ∃ p q, m = p / q ∧ Vertex s r p q := by
    intro taken
    split at taken
    · rename_i clear
      cases taken
      exact ⟨p, q, rfl, nonneg, clear.1, clear.2.1, clear.2.2⟩
    · cases taken
  unfold Interval.parabolicStep at h
  dsimp only at h
  split at h
  · rename_i positive
    refine guarded _ _ (fun number => ?_) h
    rw [pos_iff_real number] at positive
    exact positive.le
  · rename_i negative
    refine guarded _ _ (fun number => ?_) h
    rw [isNaN_neg] at number
    rw [pos_iff_real number, not_lt] at negative
    rw [real_neg]
    exact neg_nonneg.mpr negative

variable {p q : α}

theorem Vertex.denominator_pos (vertex : Vertex s r p q)
    (golden_finite : isFinite s.goldenStep = true) :
    isFinite p = true ∧ isNaN q = false ∧ 0 < real q := by
  obtain ⟨number, number', -⟩ := lt_iff_value.mp vertex.short
  have p_number : isNaN p = false := (isNaN_magnitude p).symm.trans number
  have q_number := (isNaN_of_mul ((isNaN_magnitude _).symm.trans number')).2
  have p_small : |real p| < |real (s.goldenStep * q)| := by
    have short := (lt_iff_real number number').mp vertex.short
    rwa [real_magnitude, real_magnitude] at short
  refine ⟨isFinite_of_abs_lt p_number p_small, q_number,
    lt_of_le_of_ne (vertex.nonneg q_number) fun zero => ?_⟩
  have q_finite : isFinite q = true := by
    refine isFinite_iff_real.mpr ⟨q_number, ?_⟩
    rw [← zero, abs_zero]
    exact limit_pos _
  have product := mul_rounded golden_finite q_finite
  rw [product.real, ← zero, mul_zero, clip_zero, abs_zero] at p_small
  exact absurd p_small (not_lt_of_ge (abs_nonneg _))

/-- The step to a vertex keeps the distances that were asked for. -/
theorem Vertex.bounds_of_finite (vertex : Vertex s r p q) (p_finite : isFinite p = true)
    (q_finite : isFinite q = true) (pos : 0 < real q)
    (left_finite : isFinite (s.a - s.best.x + 2.0 * r) = true)
    (right_finite : isFinite (s.b - s.best.x - 2.0 * r) = true) :
    isFinite (p / q) = true ∧ real (s.a - s.best.x + 2.0 * r) ≤ real (p / q) ∧
      real (p / q) ≤ real (s.b - s.best.x - 2.0 * r) := by
  have left := mul_rounded q_finite left_finite
  have right := mul_rounded q_finite right_finite
  have p_number := isNaN_of_isFinite p_finite
  have quotient := div_rounded p_finite q_finite pos.ne'
  have low : real (s.a - s.best.x + 2.0 * r) ≤ real p / real q := by
    rw [le_div_iff₀ pos, mul_comm]
    exact left.ge_of_lt ((lt_iff_real left.isNaN p_number).mp vertex.clear_left)
  have high : real p / real q ≤ real (s.b - s.best.x - 2.0 * r) := by
    rw [div_le_iff₀ pos, mul_comm]
    exact right.le_of_lt ((lt_iff_real p_number right.isNaN).mp vertex.clear_right)
  exact ⟨quotient.isFinite left_finite right_finite (Set.mem_uIcc.mpr (.inl ⟨low, high⟩)),
    quotient.le_real low, quotient.real_le high⟩

/-- If the denominator is infinite the step is zero, and only the distance below is sure. -/
theorem Vertex.bounds_of_infinite (vertex : Vertex s r p q) (p_finite : isFinite p = true)
    (q_infinite : Infinite q) (pos : 0 < real q) :
    isFinite (p / q) = true ∧ real (p / q) = 0 ∧ real (s.a - s.best.x + 2.0 * r) ≤ 0 := by
  obtain ⟨finite, zero⟩ := (q_infinite.div_right p_finite).stands_zero
  refine ⟨finite, zero, ?_⟩
  by_contra positive
  obtain ⟨number, -, -⟩ := lt_iff_value.mp vertex.clear_left
  have above := (lt_iff_real number (isNaN_of_isFinite p_finite)).mp vertex.clear_left
  have same : real (q * (s.a - s.best.x + 2.0 * r)) = real q :=
    congrArg (reach _) (q_infinite.mul_pos (not_le.mp positive))
  rw [same, ← abs_of_pos pos, q_infinite.abs_real] at above
  exact absurd above (not_lt_of_ge (abs_le.mp (abs_real_le p)).2)

theorem Vertex.bounds (vertex : Vertex s r p q) (golden_finite : isFinite s.goldenStep = true)
    (left_finite : isFinite (s.a - s.best.x + 2.0 * r) = true)
    (right_finite : isFinite (s.b - s.best.x - 2.0 * r) = true) :
    isFinite (p / q) = true ∧ real (s.a - s.best.x + 2.0 * r) ≤ real (p / q) ∧
      (0 < real (p / q) → real (p / q) ≤ real (s.b - s.best.x - 2.0 * r)) := by
  obtain ⟨p_finite, q_number, pos⟩ := vertex.denominator_pos golden_finite
  rcases finite_or_infinite q_number with q_finite | q_infinite
  · obtain ⟨finite, low, high⟩ :=
      vertex.bounds_of_finite p_finite q_finite pos left_finite right_finite
    exact ⟨finite, low, fun _ => high⟩
  · obtain ⟨finite, zero, low⟩ := vertex.bounds_of_infinite p_finite q_infinite pos
    exact ⟨finite, low.trans_eq zero.symm, fun positive => absurd zero positive.ne'⟩

/-- Two resolutions short of a number above, rounded, is not beyond it. -/
theorem sub_double_le {x y : α} (hx : isFinite x = true) (hy : isFinite y = true)
    (wide : isFinite (y - x) = true) (finite : isFinite ((2.0 : α) * r) = true)
    (double : real (2.0 * r) = 2 * real r) (lt : real x < real y)
    (shows : 2 ^ (1 - (format α).mantissaBits : ℤ) * (real y - real x) ≤ real r) :
    real (y - x - 2.0 * r) ≤ real y - real x := by
  have distance := sub_rounded hy hx
  have small := (isFinite_iff_real.mp wide).2
  rw [distance.real] at small
  rw [(sub_rounded wide finite).real, double, distance.real]
  exact clip_sub_le ((grid_real y).whole.sub (grid_real x).whole) (sub_pos.mpr lt) small shows

theorem le_add_double {x y : α} (hx : isFinite x = true) (hy : isFinite y = true)
    (wide : isFinite (y - x) = true) (finite : isFinite ((2.0 : α) * r) = true)
    (double : real (2.0 * r) = 2 * real r) (lt : real y < real x)
    (shows : 2 ^ (1 - (format α).mantissaBits : ℤ) * (real x - real y) ≤ real r) :
    real y - real x ≤ real (y - x + 2.0 * r) := by
  have distance : real (y - x) = -clip (format α) (real x - real y) := by
    rw [(sub_rounded hy hx).real, ← clip_neg, neg_sub]
  have small := (isFinite_iff_real.mp wide).2
  rw [distance, abs_neg] at small
  have gap := clip_sub_le ((grid_real x).whole.sub (grid_real y).whole) (sub_pos.mpr lt) small shows
  have flipped : real (y - x) + 2 * real r =
      -(clip (format α) (real x - real y) - 2 * real r) := by
    rw [distance]
    ring
  rw [(add_rounded wide finite).real, double, flipped, clip_neg]
  linarith

variable [BinaryConstants α] {config : SearchConfig α} (h : Sound s)
  (resolves : Resolves config s) (unsettled : ¬ s.settled config)

include h resolves unsettled

theorem parabolic_toward
    (shows : 2 ^ (1 - (format α).mantissaBits : ℤ) * (real s.b - real s.a) ≤
      real (s.accuracy config))
    (taken : s.parabolicStep s.goldenStep (s.accuracy config) = some m) :
    ∃ t, (t = s.a ∨ t = s.b) ∧ Toward config s t m := by
  obtain ⟨p, q, rfl, vertex⟩ := vertex_of_some taken
  obtain ⟨_, -, shortcut⟩ := golden_toward h resolves unsettled
  obtain ⟨finite, finite', double⟩ := unsettled_double h resolves unsettled
  have order : real s.a ≤ real s.b := h.low.trans h.high
  have pos := resolves.pos
  have part (distance : ℚ) (le : distance ≤ real s.b - real s.a) :
      2 ^ (1 - (format α).mantissaBits : ℤ) * distance ≤ real (s.accuracy config) :=
    (mul_le_mul_of_nonneg_left le (two_zpow_pos _).le).trans shows
  have below_finite := h.isFinite_sub h.best h.left h.low h.high (le_refl _) order
  have above_finite := h.isFinite_sub h.best h.right h.low h.high order (le_refl _)
  have below := sub_rounded h.left h.best
  have above := sub_rounded h.right h.best
  have below_nonpos : real (s.a - s.best.x) ≤ 0 := below.nonpos (sub_nonpos.mpr h.low)
  have above_nonneg : 0 ≤ real (s.b - s.best.x) := above.nonneg (sub_nonneg.mpr h.high)
  have left := add_rounded below_finite finite'
  have right := sub_rounded above_finite finite'
  rw [double] at left right
  have left_finite : isFinite (s.a - s.best.x + 2.0 * s.accuracy config) = true := by
    refine left.isFinite below_finite finite' ?_
    rw [double]
    exact Set.mem_uIcc.mpr (.inl ⟨by linarith, by linarith⟩)
  have right_finite : isFinite (s.b - s.best.x - 2.0 * s.accuracy config) = true := by
    refine right.isFinite above_finite ((isFinite_neg _).trans finite') ?_
    rw [real_neg, double]
    exact Set.mem_uIcc.mpr (.inr ⟨by linarith, by linarith⟩)
  obtain ⟨step_finite, low, high⟩ := vertex.bounds shortcut.finite left_finite right_finite
  by_cases up : 0 < real (p / q)
  · have room : real (s.accuracy config) ≤ real s.b - real s.best.x := by
      by_contra short
      have near : real (s.b - s.best.x) ≤ real (s.accuracy config) :=
        above.real_le (not_le.mp short).le
      linarith [right.nonpos (by linarith), high up]
    have inside := sub_double_le h.best h.right above_finite finite' double (by linarith)
      (part _ (by linarith [h.low]))
    refine ⟨s.b, .inr rfl, step_finite, ?_, room.trans (le_abs_self _),
      fun zero => absurd zero up.ne'⟩
    exact Set.mem_uIcc.mpr (.inl ⟨up.le, (high up).trans inside⟩)
  · rw [not_lt] at up
    have room : real (s.accuracy config) ≤ real s.best.x - real s.a := by
      by_contra short
      have near : real (-s.accuracy config) ≤ real (s.a - s.best.x) :=
        below.le_real (by rw [real_neg]; linarith)
      rw [real_neg] at near
      have beyond : real (s.accuracy config) ≤
          real (s.a - s.best.x + 2.0 * s.accuracy config) := left.le_real (by linarith)
      linarith
    have inside := le_add_double h.best h.left below_finite finite' double (by linarith)
      (part _ (by linarith [h.high]))
    refine ⟨s.a, .inl rfl, step_finite, ?_, ?_, fun _ => sub_nonpos.mpr h.low⟩
    · exact Set.mem_uIcc.mpr (.inr ⟨inside.trans low, up⟩)
    · rw [abs_sub_comm]
      exact room.trans (le_abs_self _)

theorem move_toward (shows : (s.move config).1 = .parabolic →
      2 ^ (1 - (format α).mantissaBits : ℤ) * (real s.b - real s.a) ≤ real (s.accuracy config)) :
    ∃ t, (t = s.a ∨ t = s.b) ∧ Toward config s t (s.move config).2 := by
  rcases s.move_cases config with golden | ⟨kind, parabolic⟩
  · rw [golden]
    exact golden_toward h resolves unsettled
  · exact parabolic_toward h resolves unsettled (shows kind) parabolic

/-- The next sample is taken in the interval. -/
theorem target_mem (shows : (s.move config).1 = .parabolic →
      2 ^ (1 - (format α).mantissaBits : ℤ) * (real s.b - real s.a) ≤ real (s.accuracy config)) :
    isFinite (s.target config) = true ∧ real s.a ≤ real (s.target config) ∧
      real (s.target config) ≤ real s.b := by
  have order : real s.a ≤ real s.b := h.low.trans h.high
  have finite := (unsettled_double h resolves unsettled).1
  obtain ⟨t, ends, toward⟩ := move_toward h resolves unsettled shows
  have t_mem : isFinite t = true ∧ real s.a ≤ real t ∧ real t ≤ real s.b := by
    rcases ends with rfl | rfl
    · exact ⟨h.left, le_refl _, order⟩
    · exact ⟨h.right, order, le_refl _⟩
  have mem := lengthen_mem finite toward.finite resolves.pos.le toward.mem toward.room toward.down
  obtain ⟨target_finite, target_mem⟩ := (between_iff h.best t_mem.1).mp
    (add_between h.best t_mem.1 (isFinite_lengthen finite toward.finite) mem)
  have inside := Set.uIcc_subset_Icc ⟨h.low, h.high⟩ t_mem.2 target_mem
  exact ⟨target_finite, inside.1, inside.2⟩

end Parabola

section Search

variable {config : SearchConfig α} {f : ScalarFunction α} {a b : α}

theorem Sound.of_le {s t : Interval α} {x y z : α} (h : Sound s)
    (points : t.a = x ∧ t.best.x = y ∧ t.b = z) (left : Scalar.isFinite x = true)
    (best : Scalar.isFinite y = true) (right : Scalar.isFinite z = true)
    (from_left : real s.a ≤ real x) (low : real x ≤ real y) (high : real y ≤ real z)
    (to_right : real z ≤ real s.b) :
    Sound t ∧ real s.a ≤ real t.a ∧ real t.b ≤ real s.b := by
  obtain ⟨rfl, rfl, rfl⟩ := points
  refine ⟨⟨left, right, best, low, high, ?_, ?_⟩, from_left, to_right⟩
  · exact (two_abs_le from_left (by linarith)).trans_lt h.bound_lt
  · exact (two_abs_le (by linarith) to_right).trans_lt h.bound_lt

/-- A sample in the interval leads to an interval inside it. -/
theorem Sound.update {s : Interval α} {p : Sample α} (h : Sound s)
    (finite : Scalar.isFinite p.x = true) (low : real s.a ≤ real p.x)
    (high : real p.x ≤ real s.b) :
    Sound (s.update p) ∧ real s.a ≤ real (s.update p).a ∧ real (s.update p).b ≤ real s.b := by
  have order : p.x < s.best.x ↔ real p.x < real s.best.x :=
    lt_iff_real (isNaN_of_isFinite finite) (isNaN_of_isFinite h.best)
  by_cases better : p.y ≤ s.best.y
  · rw [Interval.update_of_le better]
    by_cases below : p.x < s.best.x
    · have before := order.mp below
      exact h.of_le ⟨if_pos below, rfl, if_pos below⟩ h.left finite h.best (le_refl _) low
        before.le h.high
    · have after := not_lt.mp (mt order.mpr below)
      exact h.of_le ⟨if_neg below, rfl, if_neg below⟩ h.best finite h.right h.low after high
        (le_refl _)
  · obtain ⟨left, right, best⟩ := Interval.update_of_not_le better
    replace best := congrArg Sample.x best
    by_cases below : p.x < s.best.x
    · rw [if_pos below] at left right
      exact h.of_le ⟨left, best, right⟩ finite h.best h.right low (order.mp below).le h.high
        (le_refl _)
    · rw [if_neg below] at left right
      exact h.of_le ⟨left, best, right⟩ h.left h.best finite (le_refl _) h.low
        (not_lt.mp (mt order.mpr below)) high

/-- Sums of two numbers between the ends are finite, and a third of the tolerance is not lost in
the smallest numbers. -/
structure Roomy (config : SearchConfig α) (a b : α) : Prop where
  left : isFinite (a + a) = true
  right : isFinite (b + b) = true
  fine : 9 * 2 ^ (format α).minExponent ≤ real config.tolerance

/-- An interval of sound numbers between the ends of a search. -/
structure Within (a b : α) (s : Interval α) : Prop extends Sound s where
  subset : Set.Icc (real s.a) (real s.b) ⊆ Set.uIcc (real a) (real b)

theorem Within.length_le {s : Interval α} (h : Within a b s) :
    real s.b - real s.a ≤ |real b - real a| := by
  have order : real s.a ≤ real s.b := h.low.trans h.high
  refine (le_abs_self _).trans (Set.abs_sub_le_of_uIcc_subset_uIcc ?_)
  rw [Set.uIcc_of_le order]
  exact h.subset

/-- Where a parabolic step is taken, the resolution is at least a unit in the last place of the
length of the interval. -/
def Resolving (config : SearchConfig α) (f : ScalarFunction α) (a b : α) : Prop :=
  ∀ k trace t, Reaches config f a b k trace t → Within a b t.1 →
    (t.1.move config).1 = .parabolic →
      2 ^ (1 - (format α).mantissaBits : ℤ) * (real t.1.b - real t.1.a) ≤
        real (t.1.accuracy config)

theorem double_lt {x : α} (finite : isFinite x = true) (double : isFinite (x + x) = true) :
    2 * |real x| < limit (format α) := by
  have small := (isFinite_iff_real.mp double).2
  rw [(add_rounded finite finite).real, abs_clip, ← two_mul, abs_mul, abs_two] at small
  by_contra large
  exact absurd small (not_lt_of_ge (grid_le_clip (grid_limit _) (le_refl _) (not_lt.mp large)))

/-- The ends of a search in order. -/
theorem ends_spec (ha : isFinite a = true) (hb : isFinite b = true) :
    (ends a b = (a, b) ∧ real a ≤ real b) ∨ (ends a b = (b, a) ∧ real b ≤ real a) := by
  unfold ends
  have order : a < b ↔ real a < real b := lt_iff_real (isNaN_of_isFinite ha) (isNaN_of_isFinite hb)
  split
  · rename_i less
    exact .inl ⟨rfl, (order.mp less).le⟩
  · rename_i notLess
    exact .inr ⟨rfl, not_lt.mp (mt order.mpr notLess)⟩

variable [BinaryConstants α]

/-- The first sample is taken in the interval. -/
theorem entry_between (ha : isFinite a = true) (hb : isFinite b = true)
    (roomy : Roomy config a b) : Between a b (entry a b) := by
  have golden_ge := BinaryConstants.golden_ge (α := α)
  have ordered (x y : α) (hx : isFinite x = true) (hy : isFinite y = true)
      (double_x : isFinite (x + x) = true) (double_y : isFinite (y + y) = true)
      (le : real x ≤ real y) : Between x y (x + golden * (y - x)) := by
    have sound : Sound (.around x y ⟨x, x⟩) :=
      ⟨hx, hy, hx, le_refl _, le, double_lt hx double_x, double_lt hy double_y⟩
    have distance : isFinite (y - x) = true :=
      sound.isFinite_sub hx hy (le_refl _) le le (le_refl _)
    obtain ⟨finite, mem⟩ := fraction_mem hx hy distance
      (mul_rounded BinaryConstants.isFinite_golden distance) (by linarith)
      BinaryConstants.golden_le
    exact add_between hx hy finite mem
  unfold entry
  rcases ends_spec ha hb with ⟨eq, le⟩ | ⟨eq, le⟩ <;> rw [eq]
  · exact ordered a b ha hb roomy.left roomy.right le
  · obtain ⟨finite, order⟩ := ordered b a hb ha roomy.right roomy.left le
    exact ⟨finite, order.symm⟩

theorem Reaches.target_mem {k : Nat} {trace : List (SearchEntry α (Event α))}
    {t : Interval α × Counters} (roomy : Roomy config a b) (resolving : Resolving config f a b)
    (reaches : Reaches config f a b k trace t) (within : Within a b t.1)
    (unsettled : ¬ t.1.settled config) :
    isFinite (t.1.target config) = true ∧ real t.1.a ≤ real (t.1.target config) ∧
      real (t.1.target config) ≤ real t.1.b :=
  Minimum.target_mem within.toSound (resolves reaches.valid within.best roomy.fine) unsettled
    (resolving k trace t reaches within)

theorem Reaches.within {k : Nat} {trace : List (SearchEntry α (Event α))}
    {t : Interval α × Counters} (roomy : Roomy config a b) (resolving : Resolving config f a b)
    (h : Reaches config f a b k trace t) : Within a b t.1 := by
  refine Scheme.Reaches.invariant (P := fun _ s => Within a b s) ?_ ?_ h
  · rintro _ _ ⟨p, opens, rfl, rfl⟩
    have ha := opens.finite_left
    have hb := opens.finite_right
    obtain ⟨finite, inside⟩ := (between_iff ha hb).mp (entry_between ha hb roomy)
    rw [← opens.first.at_point] at finite inside
    have double_a := double_lt ha roomy.left
    have double_b := double_lt hb roomy.right
    unfold opening
    rcases ends_spec ha hb with ⟨eq, le⟩ | ⟨eq, le⟩ <;> rw [eq]
    · rw [Set.uIcc_of_le le] at inside
      exact ⟨⟨ha, hb, finite, inside.1, inside.2, double_a, double_b⟩,
        (Set.uIcc_of_le le).symm.subset⟩
    · rw [Set.uIcc_of_ge le] at inside
      exact ⟨⟨hb, ha, finite, inside.1, inside.2, double_b, double_a⟩,
        (Set.uIcc_of_ge le).symm.subset⟩
  · intro k trace more s p reaches within unsettled gives _
    obtain ⟨finite, low, high⟩ :=
      Reaches.target_mem roomy resolving reaches within unsettled
    replace gives : p.x = s.1.target config := gives.at_point
    rw [← gives] at finite low high
    obtain ⟨sound, left, right⟩ := within.toSound.update finite low high
    exact ⟨sound, (Set.Icc_subset_Icc left right).trans within.subset⟩

/-- A search without parabolic steps needs no resolution for them, and a tolerance of five units in
the last place of the length is enough. -/
theorem resolving_of_tolerance (roomy : Roomy config a b)
    (coarse : config.bisectionOnly = true ∨
      5 * 2 ^ (1 - (format α).mantissaBits : ℤ) * |real b - real a| ≤ real config.tolerance) :
    Resolving config f a b := by
  intro k trace t reaches within parabolic
  rcases coarse with only | coarse
  · rw [Interval.move, only, Interval.propose, if_pos rfl] at parabolic
    cases parabolic
  · have smallest : (0 : ℚ) < 2 ^ (format α).minExponent := two_zpow_pos _
    have resolves : Resolves config t.1 := resolves reaches.valid within.best roomy.fine
    obtain ⟨w, grid, fifth, third⟩ := (grid_real config.tolerance).exists_third
      BinaryConstants.precise (by linarith [roomy.fine])
    calc 2 ^ (1 - (format α).mantissaBits : ℤ) * (real t.1.b - real t.1.a)
        ≤ 2 ^ (1 - (format α).mantissaBits : ℤ) * |real b - real a| :=
          mul_le_mul_of_nonneg_left within.length_le (two_zpow_pos _).le
      _ ≤ real config.tolerance / 5 := by linarith
      _ ≤ w := fifth
      _ ≤ real (t.1.accuracy config) := resolves.le w grid third

/-- Where there is room for rounding, all arguments of the function are finite and between the
ends, and so is a minimiser that is answered. -/
theorem search_between (roomy : Roomy config a b) (resolving : Resolving config f a b) :
    StaysBetween a b (search config f a b) := by
  constructor
  · intro x asked
    obtain ⟨ha, hb, -, rfl | ⟨k, trace, t, reaches, unsettled, rfl⟩⟩ := target_of_argument asked
    · exact entry_between ha hb roomy
    · have within := Reaches.within roomy resolving reaches
      obtain ⟨finite, low, high⟩ :=
        Reaches.target_mem roomy resolving reaches within unsettled
      exact (between_iff ha hb).mpr ⟨finite, within.subset ⟨low, high⟩⟩
  · intro r ok
    obtain ⟨p, opens⟩ := opens_of_ok ok
    obtain ⟨k, trace, t, reaches, -, x, -⟩ :=
      Scheme.reaches_of_ok opens.search_eq opens.starts ok
    have within := Reaches.within roomy resolving reaches
    rw [x]
    exact (between_iff opens.finite_left opens.finite_right).mpr
      ⟨within.best, within.subset ⟨within.low, within.high⟩⟩

end Search

end Nonlinear.Minimum
