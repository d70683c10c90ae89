import Mathlib
import Nonlinear.Proofs.FloatingPoint.Arithmetic

/-! # Infinities and NaNs in arithmetic

Operations on numbers that are not finite do not round.  An infinity absorbs finite numbers, a
quotient by an infinity is zero, and a NaN is never got rid of.
-/

namespace Nonlinear.BinaryScalar

open Float.Model (Format UnpackedFloat)
open Float.Model.UnpackedFloat
open FloatingPoint

variable {α : Type} [Scalar α] [BinaryScalar α] {x y z : α} {u : UnpackedFloat}

section Value

theorem value_of_isNaN (h : Scalar.isNaN x = true) : value x = .notANumber := by
  have nan := (isNaN_value x).trans h
  cases hx : value x with
  | notANumber => rfl
  | zero | infinity | finite =>
      rw [hx] at nan
      cases nan

theorem isNaN_of_value (h : value x = .notANumber) : Scalar.isNaN x = true := by
  rw [← isNaN_value, h]
  rfl

/-- A number that is neither finite nor a NaN. -/
structure Infinite (x : α) : Prop where
  isNaN : Scalar.isNaN x = false
  isFinite : Scalar.isFinite x = false

theorem infinite_iff : Infinite x ↔ ∃ s, value x = .infinity s := by
  constructor
  · rintro ⟨nan, finite⟩
    rw [← isNaN_value] at nan
    rw [← isFinite_value] at finite
    exact (finite_or_infinity nan).resolve_left (by rw [finite]; decide)
  · rintro ⟨s, hx⟩
    constructor
    · rw [← isNaN_value, hx]
      rfl
    · rw [← isFinite_value, hx]
      rfl

theorem Infinite.abs_real (h : Infinite x) : |real x| = limit (format α) := by
  obtain ⟨s, hx⟩ := infinite_iff.mp h
  rw [real, hx]
  exact abs_signed s (limit_pos _).le

omit [BinaryScalar α] in
theorem finite_or_infinite (h : Scalar.isNaN x = false) :
    Scalar.isFinite x = true ∨ Infinite x := by
  cases finite : Scalar.isFinite x with
  | true => exact .inl rfl
  | false => exact .inr ⟨h, finite⟩

theorem value_of_pos (h : 0 < real x) :
    value x = .infinity .positive ∨ ∃ m e some, value x = .finite .positive m e some := by
  rw [real] at h
  cases hx : value x with
  | notANumber | zero =>
      rw [hx] at h
      exact absurd h (lt_irrefl _)
  | infinity s =>
      rw [hx] at h
      cases s with
      | negative => exact absurd h (not_lt_of_gt (neg_neg_of_pos (limit_pos _)))
      | positive => exact .inl rfl
  | finite s m e some =>
      rw [hx] at h
      cases s with
      | negative =>
          have : (0 : ℚ) ≤ m * 2 ^ e := by positivity
          exact absurd h (not_lt_of_ge (neg_nonpos.mpr this))
      | positive => exact .inr ⟨m, e, some, rfl⟩

/-- What is not below zero is finite or the positive infinity. -/
theorem finite_or_infinity_of_nonneg (h : 0.0 ≤ x) :
    (Scalar.isFinite x = true ∧ 0 ≤ real x) ∨ value x = .infinity .positive := by
  obtain ⟨number, rank⟩ := zero_le_iff.mp h
  rcases finite_or_infinite number with finite | infinite
  · left
    rw [le_iff_real Scalar.isNaN_zero number, real_zero] at h
    exact ⟨finite, h⟩
  · right
    obtain ⟨s, same⟩ := infinite_iff.mp infinite
    cases s with
    | positive => exact same
    | negative =>
        rw [same] at rank
        exact absurd rank (by decide)

/-! An operation gives what it does to the values, where that has a bit pattern. -/

theorem value_add (h : .add (format α) (value x) (value y) = u) (fits : Fits (format α) u) :
    value (x + y) = u :=
  value_of_bits (h ▸ bits_add x y) fits

theorem value_sub (h : .sub (format α) (value x) (value y) = u) (fits : Fits (format α) u) :
    value (x - y) = u :=
  value_of_bits (h ▸ bits_sub x y) fits

theorem value_mul (h : .mul (format α) (value x) (value y) = u) (fits : Fits (format α) u) :
    value (x * y) = u :=
  value_of_bits (h ▸ bits_mul x y) fits

theorem value_div (h : .div (format α) (value x) (value y) = u) (fits : Fits (format α) u) :
    value (x / y) = u :=
  value_of_bits (h ▸ bits_div x y) fits

end Value

section NaN

/-- An operation gives a number only for numbers. -/
theorem numbers_of_number {op : UnpackedFloat → UnpackedFloat → UnpackedFloat}
    (left : ∀ v, op .notANumber v = .notANumber) (right : ∀ u, op u .notANumber = .notANumber)
    (result : bits z = UnpackedFloat.pack (format α) (op (value x) (value y)))
    (h : Scalar.isNaN z = false) : Scalar.isNaN x = false ∧ Scalar.isNaN y = false := by
  rw [← Bool.not_eq_true] at h
  rw [← Bool.not_eq_true, ← Bool.not_eq_true, ← not_or]
  refine mt (fun nan => isNaN_of_value (value_of_bits ?_ trivial)) h
  rw [result]
  rcases nan with nan | nan <;> rw [value_of_isNaN nan]
  · rw [left]
  · rw [right]

theorem isNaN_of_sub (h : Scalar.isNaN (x - y) = false) :
    Scalar.isNaN x = false ∧ Scalar.isNaN y = false :=
  numbers_of_number (fun _ => rfl) (fun u => by cases u <;> rfl) (bits_sub x y) h

theorem isNaN_of_mul (h : Scalar.isNaN (x * y) = false) :
    Scalar.isNaN x = false ∧ Scalar.isNaN y = false :=
  numbers_of_number (fun _ => rfl) (fun u => by cases u <;> rfl) (bits_mul x y) h

theorem isNaN_of_div (h : Scalar.isNaN (x / y) = false) :
    Scalar.isNaN x = false ∧ Scalar.isNaN y = false :=
  numbers_of_number (fun _ => rfl) (fun u => by cases u <;> rfl) (bits_div x y) h

end NaN

section Infinity

/-- An infinity remains what it is when something is taken away that leaves a number. -/
theorem Infinite.sub (hx : Infinite x) (h : Scalar.isNaN (x - y) = false) :
    value (x - y) = value x := by
  obtain ⟨s, hx⟩ := infinite_iff.mp hx
  have hy := (isNaN_of_sub h).2
  rw [← isNaN_value] at h hy
  rw [hx]
  cases hy' : value y with
  | notANumber =>
      rw [hy'] at hy
      cases hy
  | zero | finite => exact value_sub (by rw [hx, hy']; rfl) trivial
  | infinity t =>
      have result : value (x - y) = if s == -t then .infinity s else .notANumber :=
        value_sub (by rw [hx, hy']; rfl) (by split <;> trivial)
      rw [result] at h ⊢
      split at h
      · rw [if_pos ‹_›]
      · cases h

theorem Infinite.sub_right (hx : Scalar.isFinite x = true) (hy : Infinite y) :
    value (x - y) = (value y).neg := by
  obtain ⟨s, hy⟩ := infinite_iff.mp hy
  rw [← isFinite_value] at hx
  rw [hy]
  refine value_sub ?_ (show Fits _ (.infinity (-s)) from trivial)
  rw [hy]
  cases hx' : value x with
  | notANumber | infinity =>
      rw [hx'] at hx
      cases hx
  | zero | finite => rfl

/-- A quotient by an infinity vanishes. -/
theorem Infinite.div_right (hx : Scalar.isFinite x = true) (hy : Infinite y) :
    Rounded (x / y) 0 := by
  obtain ⟨s, hy⟩ := infinite_iff.mp hy
  rw [← isFinite_value] at hx
  have zero : ∃ t, value (x / y) = .zero t := by
    cases hx' : value x with
    | notANumber | infinity =>
        rw [hx'] at hx
        cases hx
    | zero t | finite t => exact ⟨t / s, value_div (by rw [hx', hy]; rfl) trivial⟩
  obtain ⟨t, zero⟩ := zero
  constructor
  · rw [← isNaN_value, zero]
    rfl
  · rw [real, zero, clip_zero]
    rfl

theorem Infinite.div (hx : Infinite x) (hy : Scalar.isFinite y = true) : Infinite (x / y) := by
  obtain ⟨s, hx⟩ := infinite_iff.mp hx
  rw [← isFinite_value] at hy
  apply infinite_iff.mpr
  cases hy' : value y with
  | notANumber | infinity =>
      rw [hy'] at hy
      cases hy
  | zero t | finite t => exact ⟨s / t, value_div (by rw [hx, hy']; rfl) trivial⟩

/-- An infinity over a positive number is an infinity with the same sign. -/
theorem Infinite.div_pos (hx : Infinite x) (hy : Scalar.isFinite y = true) (pos : 0 < real y) :
    value (x / y) = value x := by
  obtain ⟨s, hx⟩ := infinite_iff.mp hx
  rw [← isFinite_value] at hy
  rw [hx]
  refine value_div ?_ (show Fits _ (.infinity s) from trivial)
  rcases value_of_pos pos with infinite | ⟨m, e, some, finite⟩
  · rw [infinite] at hy
    cases hy
  · rw [hx, finite]
    cases s <;> rfl

theorem isNaN_sub_of_finite (hx : Scalar.isNaN x = false) (hy : Scalar.isFinite y = true) :
    Scalar.isNaN (x - y) = false := by
  rcases finite_or_infinite hx with fx | ix
  · exact (sub_rounded fx hy).isNaN
  · obtain ⟨s, ix⟩ := infinite_iff.mp ix
    rw [← isFinite_value] at hy
    refine (infinite_iff.mpr ⟨s, ?_⟩).isNaN
    cases hy' : value y with
    | notANumber | infinity =>
        rw [hy'] at hy
        cases hy
    | zero | finite => exact value_sub (by rw [ix, hy']; rfl) trivial

/-- An infinity absorbs a finite number, on either side. -/
theorem value_add_infinity {s : Sign} (hx : Scalar.isFinite x = true)
    (hy : value y = .infinity s) :
    value (x + y) = .infinity s ∧ value (y + x) = .infinity s := by
  rw [← isFinite_value] at hx
  cases hx' : value x with
  | notANumber | infinity =>
      rw [hx'] at hx
      cases hx
  | zero | finite =>
      exact ⟨value_add (by rw [hy, hx']; rfl) trivial, value_add (by rw [hy, hx']; rfl) trivial⟩

theorem isNaN_add_of_finite (hx : Scalar.isFinite x = true) (hy : Scalar.isNaN y = false) :
    Scalar.isNaN (x + y) = false := by
  rcases finite_or_infinite hy with fy | iy
  · exact (add_rounded hx fy).isNaN
  · obtain ⟨s, iy⟩ := infinite_iff.mp iy
    exact (infinite_iff.mpr ⟨s, (value_add_infinity hx iy).1⟩).isNaN

theorem isNaN_div_of_finite (hx : Scalar.isNaN x = false) (hy : Scalar.isFinite y = true)
    (nonzero : real y ≠ 0) : Scalar.isNaN (x / y) = false := by
  rcases finite_or_infinite hx with fx | ix
  · exact (div_rounded fx hy nonzero).isNaN
  · exact (ix.div hy).isNaN

theorem value_one_div_zero [BinaryConstants α] : value (1.0 / 0.0 : α) = .infinity .positive := by
  have one := BinaryConstants.one (α := α)
  refine value_div ?_ trivial
  rw [value_zero]
  rcases value_of_pos (one.real.symm ▸ zero_lt_one) with infinite | ⟨m, e, some, same⟩
  · have finite := (isFinite_value (1.0 : α)).trans one.isFinite
    rw [infinite] at finite
    cases finite
  · rw [same]
    rfl

theorem value_of_real_zero (finite : Scalar.isFinite x = true) (zero : real x = 0) :
    ∃ s, value x = .zero s := by
  rw [← isFinite_value] at finite
  rw [real] at zero
  cases hx : value x with
  | notANumber | infinity =>
      rw [hx] at finite
      cases finite
  | zero s => exact ⟨s, rfl⟩
  | finite s m e some =>
      have pos : (0 : ℚ) < m * 2 ^ e := by positivity
      have magnitude := abs_signed s pos.le
      rw [hx, reach_of_finite rfl, toRat] at zero
      rw [zero, abs_zero] at magnitude
      exact absurd magnitude pos.ne

theorem infinite_div_zero (hx : Scalar.isFinite x = true) (nonzero : real x ≠ 0)
    (hy : Scalar.isFinite y = true) (zero : real y = 0) : Infinite (x / y) := by
  obtain ⟨t, hy⟩ := value_of_real_zero hy zero
  rw [← isFinite_value] at hx
  cases hx' : value x with
  | notANumber | infinity =>
      rw [hx'] at hx
      cases hx
  | zero s =>
      rw [real, hx'] at nonzero
      exact absurd rfl nonzero
  | finite s => exact infinite_iff.mpr ⟨s / t, value_div (by rw [hx', hy]; rfl) trivial⟩

theorem Infinite.real_ne_zero (h : Infinite x) : real x ≠ 0 := by
  rw [← abs_pos, h.abs_real]
  exact limit_pos _

/-- The quotients that are no numbers. -/
theorem isNaN_div_iff (hx : Scalar.isNaN x = false) (hy : Scalar.isNaN y = false) :
    Scalar.isNaN (x / y) = true ↔ real x = 0 ∧ real y = 0 ∨ Infinite x ∧ Infinite y := by
  have small {z : α} (finite : Scalar.isFinite z = true) : ¬ Infinite z := fun infinite =>
    Bool.false_ne_true (infinite.isFinite.symm.trans finite)
  rcases finite_or_infinite hx with fx | ix <;> rcases finite_or_infinite hy with fy | iy
  · rw [or_iff_left fun both => small fx both.1]
    by_cases zero : real y = 0
    · obtain ⟨t, zero_y⟩ := value_of_real_zero fy zero
      by_cases zero' : real x = 0
      · obtain ⟨s, zero_x⟩ := value_of_real_zero fx zero'
        exact iff_of_true (isNaN_of_value (value_div (by rw [zero_x, zero_y]; rfl) trivial))
          ⟨zero', zero⟩
      · have number := (infinite_div_zero fx zero' fy zero).isNaN
        exact iff_of_false (by rw [number]; exact Bool.false_ne_true) fun both => zero' both.1
    · have number := (div_rounded fx fy zero).isNaN
      exact iff_of_false (by rw [number]; exact Bool.false_ne_true) fun both => zero both.2
  · have number := (Infinite.div_right fx iy).isNaN
    refine iff_of_false (by rw [number]; exact Bool.false_ne_true) ?_
    rintro (both | both)
    · exact iy.real_ne_zero both.2
    · exact small fx both.1
  · have number := (ix.div fy).isNaN
    refine iff_of_false (by rw [number]; exact Bool.false_ne_true) ?_
    rintro (both | both)
    · exact ix.real_ne_zero both.1
    · exact small fy both.2
  · obtain ⟨s, infinite_x⟩ := infinite_iff.mp ix
    obtain ⟨t, infinite_y⟩ := infinite_iff.mp iy
    exact iff_of_true (isNaN_of_value (value_div (by rw [infinite_x, infinite_y]; rfl) trivial))
      (.inr ⟨ix, iy⟩)

/-- An infinity times a positive number is an infinity with the same sign. -/
theorem Infinite.mul_pos (hx : Infinite x) (pos : 0 < real y) : value (x * y) = value x := by
  obtain ⟨s, hx⟩ := infinite_iff.mp hx
  rw [hx]
  refine value_mul ?_ (show Fits _ (.infinity s) from trivial)
  rcases value_of_pos pos with hy | ⟨m, e, some, hy⟩ <;> rw [hx, hy] <;> cases s <;> rfl

theorem Infinite.mul_pos_right (hy : Infinite y) (pos : 0 < real x) : value (x * y) = value y := by
  obtain ⟨s, hy⟩ := infinite_iff.mp hy
  rw [hy]
  refine value_mul ?_ (show Fits _ (.infinity s) from trivial)
  rcases value_of_pos pos with hx | ⟨m, e, some, hx⟩ <;> rw [hx, hy] <;> cases s <;> rfl

/-- Who is below a difference is below the number that something was taken from. -/
theorem lt_of_lt_sub (h : x < y - z) (nonneg : Scalar.isNaN z = false → 0 ≤ real z) : x < y := by
  obtain ⟨nx, n, -⟩ := lt_iff_value.mp h
  obtain ⟨ny, nz⟩ := isNaN_of_sub n
  rw [lt_iff_real nx n] at h
  rw [lt_iff_real nx ny]
  rcases finite_or_infinite ny with fy | iy
  · rcases finite_or_infinite nz with fz | iz
    · rw [(sub_rounded fy fz).real] at h
      exact h.trans_le (clip_le_real (sub_le_self _ (nonneg nz)))
    · have bottom : real (y - z) = -limit (format α) := by
        rw [real, iz.sub_right fy, ← value_neg, ← real, real_neg, ← iz.abs_real,
          abs_of_nonneg (nonneg nz)]
      rw [bottom] at h
      exact absurd (abs_le.mp (abs_real_le x)).1 (not_le_of_gt h)
  · have same : real (y - z) = real y := congrArg (reach _) (iy.sub n)
    rwa [same] at h

end Infinity

end Nonlinear.BinaryScalar
