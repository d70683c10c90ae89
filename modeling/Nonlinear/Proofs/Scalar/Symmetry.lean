import Mathlib
import Nonlinear.Proofs.FloatingPoint.Arithmetic
import Nonlinear.Proofs.Scalar.Exact

/-! # Signs do not enter sizes

A difference taken the other way round is the same number with the other sign, rounded or not.
Products and quotients carry the sign of an operand along and compute their size without it.  So
what is decided by sizes alone is decided the same for a number and for its opposite.
-/

namespace Nonlinear

open Scalar

/-- In this arithmetic the size of a result does not depend on signs. -/
class SymmetricScalar (α : Type) [Scalar α] : Prop where
  magnitude_sub_comm (x y : α) : magnitude (x - y) = magnitude (y - x)
  magnitude_mul_right {x y : α} (z : α) :
    magnitude x = magnitude y → magnitude (x * z) = magnitude (y * z)
  magnitude_div_right {x y : α} (z : α) :
    magnitude x = magnitude y → magnitude (x / z) = magnitude (y / z)

instance {K : Type} [Field K] [LinearOrder K] [IsStrictOrderedRing K] [ExactConstants K] :
    SymmetricScalar K where
  magnitude_sub_comm := abs_sub_comm
  magnitude_mul_right {x y} z same := by
    show |x * z| = |y * z|
    rw [abs_mul, abs_mul]
    exact congrArg (· * |z|) same
  magnitude_div_right {x y} z same := by
    show |x / z| = |y / z|
    rw [abs_div, abs_div]
    exact congrArg (· / |z|) same

namespace FloatingPoint

open Float.Model (Format UnpackedFloat)
open Float.Model.UnpackedFloat

variable {spec : Format} {u v : UnpackedFloat}

theorem abs_roundWithAccuracy (s t : Sign) (m : ℕ) (e : ℤ) (acc : Accuracy) :
    (roundWithAccuracy spec s m e acc).abs = (roundWithAccuracy spec t m e acc).abs := by
  unfold roundWithAccuracy
  dsimp only
  split <;> rfl

theorem abs_normalize_neg (m e : ℤ) (s : Sign) :
    (UnpackedFloat.normalize spec (-m) e s).abs = (UnpackedFloat.normalize spec m e s).abs := by
  unfold UnpackedFloat.normalize
  rcases lt_trichotomy m 0 with neg | rfl | pos
  · rw [compare_lt_iff_lt.mpr neg, compare_gt_iff_gt.mpr (neg_pos.mpr neg)]
    exact abs_roundWithAccuracy _ _ _ _ _
  · rfl
  · rw [compare_gt_iff_gt.mpr pos, compare_lt_iff_lt.mpr (neg_neg_iff_pos.mpr pos), neg_neg]
    exact abs_roundWithAccuracy _ _ _ _ _

theorem abs_sub_swap (u v : UnpackedFloat) :
    (UnpackedFloat.sub spec u v).abs = (UnpackedFloat.sub spec v u).abs := by
  cases u with
  | notANumber => cases v <;> rfl
  | infinity s =>
      cases v with
      | infinity t => cases s <;> cases t <;> rfl
      | notANumber | zero | finite => rfl
  | zero s =>
      cases v with
      | zero t => cases s <;> cases t <;> rfl
      | notANumber | infinity | finite => rfl
  | finite s m e =>
      cases v with
      | finite t n k =>
          unfold UnpackedFloat.sub
          dsimp only
          rw [← abs_normalize_neg, neg_sub, min_comm]
      | notANumber | infinity | zero => rfl

theorem abs_mul_right (w : UnpackedFloat) (same : u.abs = v.abs) :
    (UnpackedFloat.mul spec u w).abs = (UnpackedFloat.mul spec v w).abs := by
  cases u <;> cases v <;> cases same
  case finite.finite =>
    cases w with
    | finite => exact abs_roundWithAccuracy _ _ _ _ _
    | notANumber | infinity | zero => rfl
  all_goals cases w <;> rfl

theorem abs_div_right (w : UnpackedFloat) (same : u.abs = v.abs) :
    (UnpackedFloat.div spec u w).abs = (UnpackedFloat.div spec v w).abs := by
  cases u <;> cases v <;> cases same
  case finite.finite =>
    cases w with
    | finite => exact abs_roundWithAccuracy _ _ _ _ _
    | notANumber | infinity | zero => rfl
  all_goals cases w <;> rfl

theorem abs_unpack_packComponents (s t : Sign) (e : BitVec spec.exponentBits)
    (m : BitVec spec.mantissaBitsWithoutImplicit) :
    (unpack spec (packComponents spec s e m)).abs =
      (unpack spec (packComponents spec t e m)).abs := by
  simp only [unpack, unpackExponent_packComponents, unpackMantissa_packComponents,
    unpackSign_packComponents]
  split_ifs <;> rfl

/-- Packing keeps apart sizes only by sizes, whether or not the value has a bit pattern. -/
theorem abs_unpack_pack (same : u.abs = v.abs) :
    (unpack spec (UnpackedFloat.pack spec u)).abs =
      (unpack spec (UnpackedFloat.pack spec v)).abs := by
  cases u <;> cases v <;> cases same
  case notANumber.notANumber => rfl
  case infinity.infinity => exact abs_unpack_packComponents _ _ _ _
  case zero.zero => exact abs_unpack_packComponents _ _ _ _
  case finite.finite =>
    rw [pack_finite, pack_finite]
    split_ifs <;> exact abs_unpack_packComponents _ _ _ _

end FloatingPoint

/-- Different numbers have different bit patterns. -/
class DistinctPatterns (α : Type) [Scalar α] [BinaryScalar α] : Prop where
  eq_of_bits {x y : α} : BinaryScalar.bits x = BinaryScalar.bits y → x = y

instance : DistinctPatterns Float where
  eq_of_bits {x y} same := by
    obtain ⟨⟨⟨b⟩, _⟩⟩ := x
    obtain ⟨⟨⟨c⟩, _⟩⟩ := y
    cases same
    rfl

instance : DistinctPatterns Float32 where
  eq_of_bits {x y} same := by
    obtain ⟨⟨⟨b⟩, _⟩⟩ := x
    obtain ⟨⟨⟨c⟩, _⟩⟩ := y
    cases same
    rfl

namespace BinaryScalar

open Float.Model (UnpackedFloat)
open FloatingPoint

variable {α : Type} [Scalar α] [BinaryScalar α] [DistinctPatterns α] {x y : α}

theorem magnitude_eq_iff : magnitude x = magnitude y ↔ (value x).abs = (value y).abs := by
  constructor
  · intro same
    rw [← value_magnitude, ← value_magnitude, same]
  · intro same
    apply DistinctPatterns.eq_of_bits
    rw [bits_magnitude, bits_magnitude]
    exact congrArg (UnpackedFloat.pack (format α)) same

/-- Results that are packed from values of one size have one size. -/
theorem magnitude_eq_of_bits {u v : UnpackedFloat}
    (hx : bits x = UnpackedFloat.pack (format α) u) (hy : bits y = UnpackedFloat.pack (format α) v)
    (same : u.abs = v.abs) : magnitude x = magnitude y := by
  rw [magnitude_eq_iff, value, value, hx, hy]
  exact abs_unpack_pack same

instance : SymmetricScalar α where
  magnitude_sub_comm x y :=
    magnitude_eq_of_bits (bits_sub x y) (bits_sub y x) (FloatingPoint.abs_sub_swap _ _)
  magnitude_mul_right {x y} z same :=
    magnitude_eq_of_bits (bits_mul x z) (bits_mul y z)
      (abs_mul_right _ (magnitude_eq_iff.mp same))
  magnitude_div_right {x y} z same :=
    magnitude_eq_of_bits (bits_div x z) (bits_div y z)
      (abs_div_right _ (magnitude_eq_iff.mp same))

end BinaryScalar

end Nonlinear
