import Mathlib
import Nonlinear.Proofs.FloatingPoint.Infinity
import Nonlinear.Proofs.Scalar.Symmetry

/-! # The largest of some numbers

A pass that keeps the larger of two numbers ends with the largest of all.  Among numbers without a
sign it is determined to the last bit, so the order of the pass makes no difference.
-/

namespace Nonlinear

open Scalar

variable {α ι σ : Type} [Scalar α]

/-- The number is one of the values, and no value exceeds it. -/
structure Largest (value : ι → α) (m : α) : Prop where
  attained : ∃ i, value i = m
  bound : ∀ i, value i ≤ m

/-- It is the largest of any other values that are the same ones. -/
theorem Largest.of_range {κ : Type} {value : ι → α} {value' : κ → α} {m : α}
    (h : Largest value m) (into : ∀ i, ∃ k, value' k = value i)
    (onto : ∀ k, ∃ i, value i = value' k) : Largest value' m where
  attained := by
    obtain ⟨i, rfl⟩ := h.attained
    exact into i
  bound k := by
    obtain ⟨i, same⟩ := onto k
    exact same ▸ h.bound i

/-- The first item with the largest value: those before it have smaller values, and those behind
it have no larger ones. -/
def FirstLargest (value : ι → α) (items : List ι) (p : ι) : Prop :=
  ∃ before behind, items = before ++ p :: behind ∧
    (∀ q ∈ before, value q < value p) ∧ ∀ q ∈ behind, value q ≤ value p

theorem FirstLargest.cons {value : ι → α} {items : List ι} {p q : ι}
    (h : FirstLargest value items p) (less : value q < value p) :
    FirstLargest value (q :: items) p := by
  obtain ⟨before, behind, rfl, smaller, others⟩ := h
  exact ⟨q :: before, behind, rfl, List.forall_mem_cons.mpr ⟨less, smaller⟩, others⟩

theorem FirstLargest.largest [LawfulScalar α] {value : ι → α} {items : List ι} {p : ι}
    (h : FirstLargest value items p) (number : isNaN (value p) = false) (all : ∀ i, i ∈ items) :
    Largest value (value p) := by
  obtain ⟨before, behind, rfl, smaller, others⟩ := h
  refine ⟨⟨p, rfl⟩, fun i => ?_⟩
  rcases List.mem_append.mp (all i) with earlier | later
  · exact le_of_lt (smaller i earlier)
  · rcases List.mem_cons.mp later with rfl | later
    · exact LawfulScalar.le_refl number
    · exact others i later

theorem larger_eq (x y : α) : larger x y = x ∨ larger x y = y := by
  unfold larger
  split
  · exact .inr rfl
  · split
    · exact .inr rfl
    · exact .inl rfl

/-- What such a pass ends with is what it began with or one of the values. -/
theorem foldl_larger_eq (kept : σ → α) {value : ι → α} {next : σ → ι → σ}
    (step : ∀ s i, kept (next s i) = larger (kept s) (value i)) (s : σ) (items : List ι) :
    kept (items.foldl next s) = kept s ∨ ∃ i ∈ items, value i = kept (items.foldl next s) := by
  induction items generalizing s with
  | nil => exact .inl rfl
  | cons i items ih =>
      rw [List.foldl_cons]
      rcases ih (next s i) with same | ⟨j, mem, same⟩
      · rcases larger_eq (kept s) (value i) with old | new
        · exact .inl (same.trans ((step s i).trans old))
        · exact .inr ⟨i, List.mem_cons_self, (same.trans ((step s i).trans new)).symm⟩
      · exact .inr ⟨j, List.mem_cons_of_mem i mem, same⟩

namespace FloatingPoint

open Float.Model (Format UnpackedFloat)
open Float.Model.UnpackedFloat

variable {spec : Format} {u v : UnpackedFloat}

theorem abs_idempotent (u : UnpackedFloat) : u.abs.abs = u.abs := by
  cases u <;> rfl

/-- Sizes are known by their ranks. -/
theorem abs_eq_of_rank (hu : u.isNaN = false) (hv : v.isNaN = false)
    (same : rank u.abs = rank v.abs) : u.abs = v.abs := by
  cases u with
  | notANumber => cases hu
  | infinity s =>
      cases v with
      | notANumber => cases hv
      | infinity => rfl
      | zero | finite => simp [rank, UnpackedFloat.abs] at same
  | zero s =>
      cases v with
      | notANumber => cases hv
      | zero => rfl
      | infinity | finite => simp [rank, UnpackedFloat.abs] at same
  | finite s m e =>
      cases v with
      | notANumber => cases hv
      | finite t n k => simpa [rank, UnpackedFloat.abs, and_comm] using same
      | infinity | zero => simp [rank, UnpackedFloat.abs] at same

theorem abs_roundWithAccuracy_positive (m : ℕ) (e : ℤ) (acc : Accuracy) :
    (roundWithAccuracy spec .positive m e acc).abs = roundWithAccuracy spec .positive m e acc := by
  unfold roundWithAccuracy
  dsimp only
  split <;> rfl

theorem abs_div_of_abs (hu : u.abs = u) (hv : v.abs = v) :
    (UnpackedFloat.div spec u v).abs = UnpackedFloat.div spec u v := by
  rw [← hu, ← hv]
  cases u with
  | notANumber => rfl
  | infinity | zero => cases v <;> rfl
  | finite s m e =>
      cases v with
      | notANumber | infinity | zero => rfl
      | finite t n k => exact abs_roundWithAccuracy_positive _ _ _

theorem abs_unpack {b : BitVec spec.numBits} (positive : Sign.ofBitVec (unpackSign b) = .positive) :
    (unpack spec b).abs = unpack spec b := by
  simp only [unpack, positive]
  split_ifs <;> rfl

/-- Packing may overflow to infinity but gives no sign to a size. -/
theorem abs_unpack_pack_of_abs (h : u.abs = u) :
    (unpack spec (UnpackedFloat.pack spec u)).abs = unpack spec (UnpackedFloat.pack spec u) := by
  cases u with
  | notANumber | infinity | zero => rwa [unpack_pack (by trivial)]
  | finite s m e =>
      cases h
      apply abs_unpack
      rw [pack_finite]
      split
      · simp [packedInfinity]
      · split <;> simp

end FloatingPoint

/-- Different numbers stand for different values. -/
class DistinctValues (α : Type) [Scalar α] [BinaryScalar α] : Prop where
  eq_of_value {x y : α} : BinaryScalar.value x = BinaryScalar.value y → x = y

open Float.Model.UnpackedFloat (unpack_inj_of_valid)

instance : DistinctValues Float where
  eq_of_value {x y} same :=
    DistinctPatterns.eq_of_bits ((unpack_inj_of_valid x.toModel.valid y.toModel.valid).mp same)

instance : DistinctValues Float32 where
  eq_of_value {x y} same :=
    DistinctPatterns.eq_of_bits ((unpack_inj_of_valid x.toModel.valid y.toModel.valid).mp same)

namespace BinaryScalar

open FloatingPoint

variable [BinaryScalar α] [DistinctValues α] {x y : α}

/-- Without a sign, be it that of a number or that of a zero. -/
def Unsigned (x : α) : Prop := (value x).abs = value x

omit [DistinctValues α] in
theorem unsigned_magnitude (x : α) : Unsigned (magnitude x) := by
  rw [Unsigned, value_magnitude, abs_idempotent]

omit [DistinctValues α] in
theorem unsigned_zero : Unsigned (0.0 : α) := by
  rw [Unsigned, value_zero]
  rfl

omit [DistinctValues α] in
theorem unsigned_of_pos (h : 0 < real x) : Unsigned x := by
  rw [Unsigned]
  rcases value_of_pos h with same | ⟨m, e, some, same⟩
  · rw [same]
    rfl
  · rw [same]
    rfl

omit [DistinctValues α] in
theorem Unsigned.nonneg (h : Unsigned x) (number : isNaN x = false) : 0.0 ≤ x := by
  rw [zero_le_iff, ← h]
  exact ⟨number, rank_abs_nonneg _⟩

omit [DistinctValues α] in
theorem Unsigned.div (hx : Unsigned x) (hy : Unsigned y) : Unsigned (x / y) := by
  rw [Unsigned, value, bits_div]
  exact abs_unpack_pack_of_abs (abs_div_of_abs hx hy)

omit [DistinctValues α] in
theorem Unsigned.larger (hx : Unsigned x) (hy : Unsigned y) : Unsigned (larger x y) := by
  rcases larger_eq x y with same | same
  · rwa [same]
  · rwa [same]

theorem Unsigned.antisymm (hx : Unsigned x) (hy : Unsigned y) (le : x ≤ y) (ge : y ≤ x) :
    x = y := by
  obtain ⟨number_x, number_y, le⟩ := le_iff_value.mp le
  obtain ⟨-, -, ge⟩ := le_iff_value.mp ge
  rw [← isNaN_value] at number_x number_y
  apply DistinctValues.eq_of_value
  rw [← hx, ← hy]
  apply abs_eq_of_rank number_x number_y
  rw [hx, hy]
  exact le_antisymm le ge

/-- There is one infinity that is not below zero. -/
theorem eq_infinity [BinaryConstants α] (nonneg : 0.0 ≤ x) (infinite : isFinite x = false) :
    x = 1.0 / 0.0 := by
  apply DistinctValues.eq_of_value
  rw [value_one_div_zero]
  refine (finite_or_infinity_of_nonneg nonneg).resolve_left fun finite => ?_
  rw [infinite] at finite
  cases finite.1

end BinaryScalar

open BinaryScalar

variable [BinaryScalar α] [DistinctValues α] {value : ι → α} {m m' : α}

theorem Largest.unique (unsigned : ∀ i, Unsigned (value i)) (h : Largest value m)
    (h' : Largest value m') : m = m' := by
  obtain ⟨i, rfl⟩ := h.attained
  obtain ⟨j, rfl⟩ := h'.attained
  exact (unsigned i).antisymm (unsigned j) (h'.bound i) (h.bound j)

/-- A number that is zero or one of the values, and that no value exceeds, is the largest of them
if there are any. -/
theorem Largest.of_bound [Nonempty ι] (unsigned : ∀ i, Unsigned (value i))
    (bound : ∀ i, value i ≤ m) (among : m = 0.0 ∨ ∃ i, value i = m) : Largest value m := by
  refine ⟨?_, bound⟩
  rcases among with rfl | attained
  · obtain ⟨i⟩ := ‹Nonempty ι›
    have number := (LawfulScalar.isNaN_of_le (bound i)).1
    exact ⟨i, (unsigned i).antisymm unsigned_zero (bound i) ((unsigned i).nonneg number)⟩
  · exact attained

end Nonlinear
