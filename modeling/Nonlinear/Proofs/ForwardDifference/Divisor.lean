import Nonlinear.Proofs.FloatingPoint.Infinity
import Nonlinear.Proofs.FloatingPoint.SquareRoot
import Nonlinear.Proofs.ForwardDifference

/-! # The divisor of a forward difference

A coordinate is moved by a positive step, but the sum is rounded, so the distance it was really
moved is zero where the step is lost.  That cannot happen to a step of more than half a unit of the
coordinate, and the scaled step is that large below `2 ^ 54`.  An entry of an estimate is a NaN only
where the divisor is zero or infinite.
-/

namespace Nonlinear

open Scalar FloatingPoint

namespace BinaryScalar

variable {α : Type} [Scalar α] [BinaryScalar α] {x h : α}

section Moved

variable (hx : isFinite x = true) (hh : isFinite h = true)

include hx hh

theorem isNaN_moved : isNaN (x + h - x) = false := isNaN_sub_of_finite (add_rounded hx hh).isNaN hx

theorem lt_add_iff : x < x + h ↔ real x < nearest (format α) (real x + real h) := by
  have inside := abs_lt.mp (isFinite_iff_real.mp hx).2
  have sum := add_rounded hx hh
  rw [lt_iff_real (isNaN_of_isFinite hx) sum.isNaN, sum.real, clip, lt_max_iff, lt_min_iff]
  exact (or_iff_right (not_lt_of_gt inside.1)).trans (and_iff_right inside.2)

variable (positive : 0.0 < h)

include positive

/-- The distance is never negative, and it is zero just where the sum is the number again. -/
theorem moved_spec : 0.0 ≤ x + h - x ∧ (0.0 < x + h - x ↔ x < x + h) := by
  have pos := (pos_iff_real (isNaN_of_isFinite hh)).mp positive
  have sum := add_rounded hx hh
  have up : real x ≤ real (x + h) := sum.le_real (le_add_of_nonneg_right pos.le)
  have number := isNaN_moved hx hh
  rw [le_iff_real isNaN_zero number, real_zero, pos_iff_real number,
    lt_iff_real (isNaN_of_isFinite hx) sum.isNaN]
  rcases finite_or_infinite sum.isNaN with finite | infinite
  · have distance := sub_rounded finite hx
    refine ⟨distance.nonneg (sub_nonneg.mpr up), fun moved => ?_, fun further => ?_⟩
    · by_contra back
      exact absurd moved (not_lt_of_ge (distance.nonpos (sub_nonpos.mpr (not_lt.mp back))))
    · have least : 2 ^ (format α).minExponent ≤ real (x + h) - real x :=
        ((grid_real _).whole.sub (grid_real _).whole).least_le (sub_pos.mpr further)
      have room := (grid_limit (format α)).whole.least_le (limit_pos _)
      rw [distance.real]
      exact (two_zpow_pos _).trans_le (grid_le_clip (.two_zpow (le_refl _)) room least)
  · -- an infinite sum is further up than any finite number
    have same : real (x + h - x) = real (x + h) := congrArg (reach _) (infinite.sub number)
    have inside := abs_lt.mp (isFinite_iff_real.mp hx).2
    have far : real (x + h) = limit (format α) := by
      rcases abs_choice (real (x + h)) with top | bottom
      · exact top.symm.trans infinite.abs_real
      · have := bottom.symm.trans infinite.abs_real
        linarith
    rw [same, far]
    exact ⟨(limit_pos _).le, iff_of_true (limit_pos _) inside.2⟩

/-- A step is not lost that is not too small a part of the number. -/
theorem moved_of_part (large : |real x| < 2 ^ (format α).mantissaBits * real h) :
    0.0 < x + h - x := by
  have pos := (pos_iff_real (isNaN_of_isFinite hh)).mp positive
  refine (moved_spec hx hh positive).2.mpr ((lt_add_iff hx hh).mpr ?_)
  exact lt_nearest_add_of_part (grid_real x) ((grid_real h).whole.least_le pos) large

end Moved

end BinaryScalar

open BinaryScalar

section Scaled

variable {x : Float} {v : ℚ} {e : ℤ}

/-- Numbers of moderate size have a leading one, and units that are not large. -/
theorem unit_of_moderate (least : 2 ^ (-17 : ℤ) ≤ v) (small : v < 2 ^ 54) :
    -70 < unit (format Float) v ∧ unit (format Float) v ≤ 1 ∧
      2 ^ unit (format Float) v ≤ 2 ^ (-52 : ℤ) * v := by
  have bits : (format Float).mantissaBits = 53 := rfl
  have lowest : (format Float).minExponent = -1074 := rfl
  have pos : 0 < v := (two_zpow_pos _).trans_le least
  have below := abs_lt_unit (format Float) v
  rw [abs_of_pos pos, two_pow_mul_unit] at below
  have above := (zpow_lt_zpow_iff_right₀ one_lt_two).mp (least.trans_lt below)
  have high : unit (format Float) v ≤ 1 := by
    refine unit_le pos.ne' ?_ (by rw [lowest]; norm_num)
    rw [abs_of_pos pos, bits]
    exact small
  rw [bits] at above
  refine ⟨by omega, high, ?_⟩
  have moderate : (format Float).minExponent < unit (format Float) v := by
    rw [lowest]
    omega
  have lead := unit_le_abs pos.ne' moderate
  rw [abs_of_pos pos] at lead
  exact unit_le_part lead

theorem two_lt_limit : (2 : ℚ) < limit (format Float) := by decide +kernel

/-- A number above half of a unit whose square is not above the unit. -/
theorem exists_square_le_unit (low : -70 < e) (high : e ≤ 1) :
    ∃ g, Grid (format Float) g ∧ 0 ≤ g ∧ g ≤ limit (format Float) ∧ 2 ^ e < 2 * g ∧
      g * g ≤ 2 ^ e := by
  have pos := two_zpow_pos (e - 3)
  have quarter : (2 : ℚ) ^ (e - 3) ≤ 1 / 4 := by
    calc (2 : ℚ) ^ (e - 3) ≤ 2 ^ (-2 : ℤ) := zpow_le_zpow_right₀ one_le_two (by omega)
      _ = 1 / 4 := by norm_num
  have eighth : (2 : ℚ) ^ e = 8 * 2 ^ (e - 3) := by
    rw [zpow_sub₀ two_ne_zero]
    norm_num
    ring
  have grid : Grid (format Float) ((5 : ℤ) * 2 ^ (e - 3)) := by
    refine .of_le (by decide) ?_
    show (-1074 : ℤ) ≤ e - 3
    omega
  have square := mul_le_mul_of_nonneg_right quarter pos.le
  rw [eighth]
  exact ⟨5 * 2 ^ (e - 3), by exact_mod_cast grid, by linarith, by linarith [two_lt_limit],
    by linarith, by linarith⟩

theorem coordinate_floor :
    isFinite (1e-5 : Float) = true ∧ 2 ^ (-17 : ℤ) ≤ real (1e-5 : Float) := by
  decide +kernel

/-- Below `2 ^ 54` the scaled step is more than half a unit. -/
theorem unit_lt_scaled (finite : isFinite x = true) (nonzero : real x ≠ 0)
    (small : |real x| < 2 ^ 54) :
    2 ^ unit (format Float) (real x) < 2 * real (DifferenceStep.scaled.size x) := by
  obtain ⟨finite_floor, least⟩ := coordinate_floor
  have tiny : real (1e-5 : Float) < 2 ^ 54 := by decide +kernel
  have epsilon := BinaryConstants.epsilon (α := Float)
  obtain ⟨finite_m, size⟩ :=
    larger_spec ((LawfulScalar.isFinite_magnitude x).trans finite) finite_floor
  rw [real_magnitude] at size
  set m := larger (magnitude x) (1e-5 : Float)
  have le : |real x| ≤ real m := (le_max_left _ _).trans_eq size.symm
  have moderate : 2 ^ (-17 : ℤ) ≤ real m := least.trans ((le_max_right _ _).trans_eq size.symm)
  have pos : 0 < real m := (two_zpow_pos _).trans_le moderate
  obtain ⟨low, high, part⟩ := unit_of_moderate moderate (size.trans_lt (max_lt small tiny))
  obtain ⟨g, grid, nonneg, bounded, half, square⟩ := exists_square_le_unit low high
  have product := mul_rounded epsilon.isFinite finite_m
  rw [epsilon.real] at product
  have finite_product : isFinite (Scalar.epsilon * m) = true :=
    product.isFinite_of_le finite_m (by positivity)
      (mul_le_of_le_one_left pos.le (by decide +kernel))
  have unit_le_product : 2 ^ unit (format Float) (real m) ≤ real (Scalar.epsilon * m) := by
    rw [product.real]
    have unit_le_two : (2 : ℚ) ^ unit (format Float) (real m) ≤ 2 ^ (1 : ℤ) :=
      zpow_le_zpow_right₀ one_le_two high
    exact grid_le_clip (.two_zpow (minExponent_le_unit _ _))
      (unit_le_two.trans two_lt_limit.le) part
  have root : g ≤ real (DifferenceStep.scaled.size x) :=
    le_sqrt finite_product (product.nonneg (by positivity)) grid nonneg bounded
      (square.trans unit_le_product)
  have units : unit (format Float) (real x) ≤ unit (format Float) (real m) :=
    unit_mono nonzero (le.trans_eq (abs_of_pos pos).symm)
  calc (2 : ℚ) ^ unit (format Float) (real x) ≤ 2 ^ unit (format Float) (real m) :=
        zpow_le_zpow_right₀ one_le_two units
    _ < 2 * g := half
    _ ≤ 2 * real (DifferenceStep.scaled.size x) := by linarith

/-- Below `2 ^ 54` the scaled step is not lost. -/
theorem moved_scaled (finite : isFinite x = true)
    (finite_step : isFinite (DifferenceStep.scaled.size x) = true)
    (positive : 0.0 < DifferenceStep.scaled.size x) (small : |real x| < 2 ^ 54) :
    0.0 < x + DifferenceStep.scaled.size x - x := by
  by_cases zero : real x = 0
  · refine moved_of_part finite finite_step positive ?_
    have pos := (pos_iff_real (isNaN_of_isFinite finite_step)).mp positive
    rw [zero, abs_zero]
    positivity
  · refine (moved_spec finite finite_step positive).2.mpr ((lt_add_iff finite finite_step).mpr ?_)
    exact lt_nearest_add (grid_real x) (unit_lt_scaled finite zero small)

end Scaled

namespace DifferenceSweep

variable {n : Nat} {f : VectorFunction Float n} {step : DifferenceStep Float}
  {x fx : Vector Float n} {jacobian : DenseMatrix Float n n} {counters : Counters}

/-- The entries of a complete estimate are quotients by the distance that the coordinate was really
moved.  It is positive unless the step is lost, and that is where an entry can be a NaN: the
difference is zero, too. -/
theorem fill_divisor (point : ∀ i, isFinite (x.get i) = true)
    (value : ∀ i, isFinite (fx.get i) = true)
    (complete : (fill f step x fx jacobian counters).outcome = .ok ()) (j : Fin n) :
    let h := step.size (x.get j)
    let divisor := x.get j + h - x.get j
    0.0 ≤ divisor ∧ (0.0 < divisor ↔ x.get j < x.get j + h) ∧
      (|real (x.get j)| < 2 ^ 53 * real h → 0.0 < divisor) ∧
      (step = .scaled → |real (x.get j)| < 2 ^ 54 → 0.0 < divisor) ∧
      ∃ y buffer, f (j + 1) (x.set j (x.get j + h) j.isLt) buffer = ⟨y, none⟩ ∧ ∀ i,
        let difference := y.get i - fx.get i
        let entry := (fill f step x fx jacobian counters).jacobian.entry i j
        isFinite (y.get i) = true ∧ entry = difference / divisor ∧
          (isNaN entry = true ↔ (difference == 0.0) = true ∧ (divisor == 0.0) = true ∨
            BinaryScalar.Infinite difference ∧ BinaryScalar.Infinite divisor) := by
  intro h divisor
  obtain ⟨p, y, buffer, moved, called, finite, quotients⟩ := fill_calls complete j
  obtain ⟨positive, finite_h, rfl⟩ := DifferenceStep.perturb_ok moved
  obtain ⟨nonneg, positive_iff⟩ := moved_spec (point j) finite_h positive
  refine ⟨nonneg, positive_iff, moved_of_part (point j) finite_h positive, ?_, y, buffer, called,
    fun i => ⟨get_of_all finite i, quotients i, ?_⟩⟩
  · rintro rfl
    exact moved_scaled (point j) finite_h positive
  · have entry : (fill f step x fx jacobian counters).jacobian.entry i j =
        (y.get i - fx.get i) / divisor := quotients i
    have number : isNaN divisor = false := isNaN_moved (point j) finite_h
    have number' := (sub_rounded (get_of_all finite i) (value i)).isNaN
    rw [entry, isNaN_div_iff number' number, beq_zero_iff_real number', beq_zero_iff_real number]

/-- The largest number below `2 ^ 54` is moved, and its entry is a number. -/
theorem fill_divisor_below :
    let f : VectorFunction Float 1 := fun _ x _ => ⟨x, none⟩
    let x : Vector Float 1 := #v[18014398509481982.0]
    let h := DifferenceStep.scaled.size (x.get 0)
    let sweep := fill f .scaled x x #v[#v[0.0]] {}
    sweep.outcome = .ok () ∧ (∀ i, isFinite (x.get i) = true) ∧
      0.0 < x.get 0 + h - x.get 0 ∧ isNaN (sweep.jacobian.entry 0 0) = false := by
  intro f x h sweep
  have finite : ∀ i, isFinite (x.get i) = true := by decide +kernel
  have complete : sweep.outcome = .ok () := complete_of_isOk (by decide +kernel)
  have small : |real (x.get 0)| < 2 ^ 54 := by decide +kernel
  obtain ⟨-, -, -, scaled, y, -, -, entries⟩ := fill_divisor finite finite complete 0
  have nonzero : (x.get 0 + h - x.get 0 == 0.0) = false := by decide +kernel
  have bounded : isFinite (x.get 0 + h - x.get 0) = true := by decide +kernel
  refine ⟨complete, finite, scaled rfl small, Bool.eq_false_iff.mpr (mt (entries 0).2.2.mp ?_)⟩
  rintro (⟨-, zero⟩ | ⟨-, infinite⟩)
  · exact Bool.false_ne_true (nonzero.symm.trans zero)
  · exact Bool.false_ne_true (infinite.isFinite.symm.trans bounded)

/-- The scaled step of `2 ^ 54` is two, half a unit, and the sum is rounded down again.  The
estimate is complete all the same, and its entry is a NaN. -/
theorem scaled_step_lost :
    let f : VectorFunction Float 1 := fun _ x _ => ⟨x, none⟩
    let x : Vector Float 1 := #v[18014398509481984.0]
    let h := DifferenceStep.scaled.size (x.get 0)
    let sweep := fill f .scaled x x #v[#v[0.0]] {}
    sweep.outcome = .ok () ∧ (∀ i, isFinite (x.get i) = true) ∧ 0.0 < h ∧
      ¬ 0.0 < x.get 0 + h - x.get 0 ∧ isNaN (sweep.jacobian.entry 0 0) = true :=
  ⟨complete_of_isOk (by decide +kernel), by decide +kernel⟩

end DifferenceSweep

end Nonlinear
