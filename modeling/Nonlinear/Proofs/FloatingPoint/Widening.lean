import Mathlib
import Nonlinear.Proofs.Scalar.Unit

/-! # Widening

A double holds every number of the smaller format: it has more digits, and exponents below and
above.  So a number that is widened and narrowed again is rounded twice and changed by neither
rounding.  The sign of a zero is kept, too.
-/

namespace Nonlinear.FloatingPoint

open Float.Model (Format UnpackedFloat)
open Float.Model.UnpackedFloat
open BinaryScalar (fits_value canonical_value isFinite_value)

variable {spec wide : Format} {u : UnpackedFloat}

theorem Grid.mono {q : ℚ} (grid : Grid spec q) (digits : spec.mantissaBits ≤ wide.mantissaBits)
    (least : wide.minExponent ≤ spec.minExponent) : Grid wide q := by
  obtain ⟨m, e, bound, le, rfl⟩ := grid
  exact ⟨m, e, bound.trans_le (pow_le_pow_right₀ one_le_two digits), least.trans le, rfl⟩

theorem roundTo_spec (finite : u.isFinite = true) :
    RoundsTo spec (roundTo spec u) (toRat u) := by
  cases u with
  | notANumber | infinity => cases finite
  | zero s => exact roundsTo_zero s
  | finite s m e pos => exact round_spec s e pos

/-- A number that a wider format holds comes back from it. -/
theorem roundTo_roundTo (finite : u.isFinite = true) (canonical : Canonical spec u)
    (grid : Grid wide (toRat u)) : roundTo spec (roundTo wide u) = u := by
  have there : RoundsTo wide (roundTo wide u) (toRat u) := roundTo_spec finite
  have back : RoundsTo spec (roundTo spec (roundTo wide u)) (toRat (roundTo wide u)) :=
    roundTo_spec there.finite
  have kept : toRat (roundTo wide u) = toRat u := there.value.trans (nearest_of_grid grid)
  have kept_back : toRat (roundTo spec (roundTo wide u)) = toRat u := by
    rw [back.value, kept, nearest_of_grid canonical.grid]
  cases u with
  | notANumber | infinity => cases finite
  -- A zero is not known by its value, since that does not tell the sign.
  | zero s => rfl
  | finite s m e pos =>
      refine eq_of_toRat back.finite finite back.canonical canonical ?_ kept_back
      rw [kept_back]
      have : (0 : ℚ) < m * 2 ^ e := by positivity
      cases s with
      | positive => exact this.ne'
      | negative => exact neg_ne_zero.mpr this.ne'

theorem exact_pack {v : UnpackedFloat} (fits : Fits .binary64 v) : exact (pack v) = v := by
  have twice : exact (pack v) =
      unpack .binary64 (UnpackedFloat.pack _ (unpack .binary64 (UnpackedFloat.pack _ v))) := rfl
  rw [twice, unpack_pack fits, unpack_pack fits]

theorem exact32_pack32 {v : UnpackedFloat} (fits : Fits .binary32 v) :
    exact32 (pack32 v) = v := by
  have twice : exact32 (pack32 v) =
      unpack .binary32 (UnpackedFloat.pack _ (unpack .binary32 (UnpackedFloat.pack _ v))) := rfl
  rw [twice, unpack_pack fits, unpack_pack fits]

section Single

variable (x : Float32)

theorem fits_exact32 : Fits .binary32 (exact32 x) := fits_value x

theorem canonical_exact32 : Canonical .binary32 (exact32 x) := canonical_value x

theorem isFinite_exact32 : (exact32 x).isFinite = Scalar.isFinite x := isFinite_value x

theorem exact32_injective : Function.Injective exact32 := by
  intro x y same
  exact DistinctPatterns.eq_of_bits
    ((unpack_inj_of_valid x.toModel.valid y.toModel.valid).mp same)

theorem grid_exact32 : Grid .binary64 (toRat (exact32 x)) :=
  (canonical_exact32 x).grid.mono (by decide) (by decide)

theorem limit_binary32_le : limit .binary32 ≤ limit .binary64 :=
  zpow_le_zpow_right₀ one_le_two (by decide)

variable {x} (finite : Scalar.isFinite x = true)

include finite

theorem fits_widened : Fits .binary64 (roundTo .binary64 (exact32 x)) := by
  obtain ⟨-, canonical, same⟩ : RoundsTo .binary64 _ (toRat (exact32 x)) :=
    roundTo_spec ((isFinite_exact32 x).trans finite)
  have small := (abs_toRat_lt_iff (by decide) (canonical_exact32 x)).mpr (fits_exact32 x)
  refine (abs_toRat_lt_iff (by decide) canonical).mp ?_
  rw [same, nearest_of_grid (grid_exact32 x)]
  exact small.trans_le limit_binary32_le

theorem roundTo_widened : roundTo .binary32 (exact (widen x)) = exact32 x := by
  show roundTo .binary32 (exact (pack (roundTo .binary64 (exact32 x)))) = exact32 x
  rw [exact_pack (fits_widened finite)]
  exact roundTo_roundTo ((isFinite_exact32 x).trans finite) (canonical_exact32 x) (grid_exact32 x)

end Single

/-- No finite number is lost in a double. -/
class Widens (α : Type) [FloatingPoint α] : Prop where
  narrow_widen (x : α) : Scalar.isFinite x = true → narrow (widen x) = x

export Widens (narrow_widen)

instance : Widens Float where
  narrow_widen _ _ := rfl

instance : Widens Float32 where
  narrow_widen x finite := by
    apply exact32_injective
    show exact32 (pack32 (roundTo .binary32 (exact (widen x)))) = exact32 x
    rw [roundTo_widened finite, exact32_pack32 (fits_exact32 x)]

end Nonlinear.FloatingPoint
