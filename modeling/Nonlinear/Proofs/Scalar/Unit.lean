import Mathlib
import Nonlinear.Proofs.FloatingPoint.Infinity
import Nonlinear.Proofs.Scalar.Symmetry

/-! # Multiplication by one

A product with one is the other factor, in an arithmetic that rounds as well: the factor is a
number of the format already, and a NaN has one bit pattern.
-/

namespace Nonlinear

open Scalar

/-- One is a unit of multiplication. -/
class UnitScalar (α : Type) [Scalar α] : Prop where
  mul_one (x : α) : x * 1.0 = x

instance {K : Type} [Field K] [LinearOrder K] [IsStrictOrderedRing K] [ExactConstants K] :
    UnitScalar K where
  mul_one x := by
    rw [literal_one]
    exact MulOneClass.mul_one x

namespace FloatingPoint

open Float.Model (Format UnpackedFloat)
open Float.Model.UnpackedFloat

variable {spec : Format} {u v : UnpackedFloat}

/-- A finite number other than zero is known by the rational it stands for. -/
theorem eq_of_toRat (hu : u.isFinite = true) (hv : v.isFinite = true) (cu : Canonical spec u)
    (cv : Canonical spec v) (nonzero : toRat u ≠ 0) (same : toRat u = toRat v) : u = v := by
  have ranks : rank u = rank v := by
    rcases lt_trichotomy (rank u) (rank v) with lt | eq | gt
    · exact absurd same (toRat_lt_of_rank hu hv cu cv lt).ne
    · exact eq
    · exact absurd same (toRat_lt_of_rank hv hu cv cu gt).ne'
  cases u with
  | notANumber | infinity => cases hu
  | zero => exact absurd rfl nonzero
  | finite s m e =>
      cases v with
      | notANumber | infinity => cases hv
      | zero => exact absurd same nonzero
      | finite t n k => cases s <;> cases t <;> simp_all [rank]

theorem mul_eq_left (cu : Canonical spec u) (hv : v.isFinite = true) (cv : Canonical spec v)
    (one : toRat v = 1) : UnpackedFloat.mul spec u v = u := by
  cases v with
  | notANumber | infinity => cases hv
  | zero => exact absurd one zero_ne_one
  | finite t n k some =>
      have positive : t = .positive := by
        cases t with
        | positive => rfl
        | negative =>
            have : (0 : ℚ) ≤ n * 2 ^ k := by positivity
            have : -(n * 2 ^ k : ℚ) = 1 := one
            linarith
      subst positive
      have unsigned (s : Sign) : s * .positive = s := by cases s <;> rfl
      cases u with
      | notANumber => rfl
      | infinity s => exact congrArg UnpackedFloat.infinity (unsigned s)
      | zero s => exact congrArg UnpackedFloat.zero (unsigned s)
      | finite s m e pos =>
          obtain ⟨finite, canonical, exact⟩ :=
            mul_spec (u := .finite s m e pos) (v := .finite .positive n k some) rfl rfl cu cv
          rw [one, mul_one, nearest_of_grid cu.grid] at exact
          refine eq_of_toRat finite rfl canonical cu ?_ exact
          have : (0 : ℚ) < m * 2 ^ e := by positivity
          rw [exact]
          cases s with
          | positive => exact this.ne'
          | negative => exact neg_ne_zero.mpr this.ne'

end FloatingPoint

theorem BinaryScalar.value_mul_one {α : Type} [Scalar α] [BinaryScalar α] [BinaryConstants α]
    (x : α) : value (x * 1.0) = value x := by
  obtain ⟨finite, one⟩ := BinaryConstants.one (α := α)
  rw [real_of_finite finite] at one
  exact value_mul (FloatingPoint.mul_eq_left (canonical_value x) ((isFinite_value _).trans finite)
    (canonical_value _) one) (fits_value x)

open Float.Model.UnpackedFloat (unpack_inj_of_valid)

instance : UnitScalar Float where
  mul_one x := DistinctPatterns.eq_of_bits
    ((unpack_inj_of_valid (x * 1.0).toModel.valid x.toModel.valid).mp
      (BinaryScalar.value_mul_one x))

instance : UnitScalar Float32 where
  mul_one x := DistinctPatterns.eq_of_bits
    ((unpack_inj_of_valid (x * 1.0).toModel.valid x.toModel.valid).mp
      (BinaryScalar.value_mul_one x))

end Nonlinear
