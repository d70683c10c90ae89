import Mathlib
import Nonlinear.Proofs.FloatingPoint.Counting
import Nonlinear.Proofs.FloatingPoint.SquareRoot
import Nonlinear.Proofs.ResidualNorm
import Nonlinear.Proofs.Scalar.Largest

/-! # Norms of residuals do not hide a bad component

Sums of squares, quotients by a count and square roots stay at or above zero, so nothing that has
become infinite is ever taken away again, and a NaN is never lost.  A maximum would lose it, which
is why the largest magnitude is found by a pass with a NaN that stays.  So a norm below some bound
vouches for every component.
-/

namespace Nonlinear.BinaryScalar

open Float.Model (Format UnpackedFloat)
open FloatingPoint
open Scalar (Bounds)

variable {α : Type} [Scalar α] [BinaryScalar α] {x y : α} {q : ℚ}

theorem isNaN_of_add (h : Scalar.isNaN (x + y) = false) :
    Scalar.isNaN x = false ∧ Scalar.isNaN y = false :=
  numbers_of_number (fun _ => rfl) (fun u => by cases u <;> rfl) (bits_add x y) h

theorem value_sqrt {u : UnpackedFloat} (h : .sqrt (format α) (value x) = u)
    (fits : Fits (format α) u) : value (Scalar.sqrt x) = u :=
  value_of_bits (h ▸ bits_sqrt x) fits

theorem isNaN_of_sqrt (h : Scalar.isNaN (Scalar.sqrt x) = false) : Scalar.isNaN x = false := by
  cases nan : Scalar.isNaN x with
  | false => rfl
  | true =>
      have root : value (Scalar.sqrt x) = .notANumber :=
        value_sqrt (by rw [value_of_isNaN nan]; rfl) trivial
      rw [isNaN_of_value root] at h
      cases h

theorem Rounded.bounds (h : Rounded y q) (nonneg : 0 ≤ q) (finite : Scalar.isFinite x = true) :
    Bounds y x where
  nonneg := by
    rw [le_iff_real Scalar.isNaN_zero h.isNaN, real_zero]
    exact h.nonneg nonneg
  finite _ := finite

theorem bounds_of_infinity (same : value y = .infinity .positive) : Bounds y x := by
  have infinite := infinite_iff.mpr ⟨_, same⟩
  refine ⟨zero_le_iff.mpr ⟨infinite.isNaN, ?_⟩, fun finite => ?_⟩
  · rw [same]
    decide
  · rw [infinite.isFinite] at finite
    cases finite

theorem bounds_add (hx : 0.0 ≤ x) (hy : 0.0 ≤ y) : Bounds (x + y) x ∧ Bounds (x + y) y := by
  have overflow (sum : value (x + y) = .infinity .positive) :
      Bounds (x + y) x ∧ Bounds (x + y) y := ⟨bounds_of_infinity sum, bounds_of_infinity sum⟩
  rcases finite_or_infinity_of_nonneg hx with ⟨fx, nx⟩ | ix <;>
    rcases finite_or_infinity_of_nonneg hy with ⟨fy, ny⟩ | iy
  · have sum := add_rounded fx fy
    exact ⟨sum.bounds (add_nonneg nx ny) fx, sum.bounds (add_nonneg nx ny) fy⟩
  · exact overflow (value_add_infinity fx iy).1
  · exact overflow (value_add_infinity fy ix).2
  · exact overflow (value_add (by rw [ix, iy]; rfl) trivial)

theorem bounds_square (number : Scalar.isNaN x = false) : Bounds (x * x) x := by
  rcases finite_or_infinite number with finite | infinite
  · exact (mul_rounded finite finite).bounds (mul_self_nonneg _) finite
  · obtain ⟨s, same⟩ := infinite_iff.mp infinite
    apply bounds_of_infinity
    refine value_mul ?_ trivial
    rw [same]
    cases s <;> rfl

theorem bounds_div (hx : 0.0 ≤ x) (finite : Scalar.isFinite y = true) (pos : 0 < real y) :
    Bounds (x / y) x := by
  rcases finite_or_infinity_of_nonneg hx with ⟨finite', nonneg⟩ | infinite
  · exact (div_rounded finite' finite pos.ne').bounds (div_nonneg nonneg pos.le) finite'
  · apply bounds_of_infinity
    rw [(infinite_iff.mpr ⟨_, infinite⟩).div_pos finite pos, infinite]

theorem bounds_sqrt (hx : 0.0 ≤ x) : Bounds (Scalar.sqrt x) x := by
  rcases finite_or_infinity_of_nonneg hx with ⟨finite, nonneg⟩ | infinite
  · rw [real_of_finite finite] at nonneg
    obtain ⟨q, rounds, above⟩ :=
      @sqrt_spec (format α) _ ((isFinite_value x).trans finite) nonneg
    have rounded : Rounded (Scalar.sqrt x) q := rounded_of_bits rounds (bits_sqrt x)
    exact rounded.bounds (above 0 .zero le_rfl (by rwa [mul_zero])) finite
  · apply bounds_of_infinity
    refine value_of_bits ?_ trivial
    rw [bits_sqrt]
    exact congrArg (fun u => UnpackedFloat.pack _ (UnpackedFloat.sqrt _ u)) infinite

end Nonlinear.BinaryScalar

namespace Nonlinear.ResidualNorm

open Scalar BinaryScalar

variable {α : Type} [Scalar α] {n : Nat}

variable [BinaryScalar α] {xs : List α} {m : α}

theorem Reveals.add_square (h : Reveals xs m) (x : α) : Reveals (xs ++ [x]) (m + x * x) := by
  refine h.snoc (fun number => ?_) fun hm number => ?_
  · obtain ⟨old, square⟩ := isNaN_of_add number
    exact ⟨old, (isNaN_of_mul square).1⟩
  · have square := bounds_square number
    obtain ⟨old, new⟩ := bounds_add hm square.nonneg
    exact ⟨old, new.nonneg, fun finite => square.finite (new.finite finite)⟩

theorem sumOfSquares_reveals (xs : List α) : Reveals xs (sumOfSquares xs) :=
  foldl_reveals Reveals.add_square xs

theorem norm_reveals (kind : ResidualNorm) (nonempty : n ≠ 0) (v : Vector α n)
    (count : isFinite (Scalar.ofNat n : α) = true) (pos : 0 < real (Scalar.ofNat n : α)) :
    Reveals v.toList (kind.norm v) := by
  have squares := sumOfSquares_reveals v.toList
  unfold norm
  rw [if_neg nonempty]
  cases kind with
  | maxAbs => exact maxAbsFrom_reveals v.toList
  | euclidean => exact squares.map isNaN_of_sqrt bounds_sqrt
  | rms =>
      have mean := squares.map (fun number => (isNaN_of_div number).1)
        fun nonneg => bounds_div nonneg count pos
      exact mean.map isNaN_of_sqrt bounds_sqrt

omit [Scalar α] [BinaryScalar α] in
theorem mem_toList_iff_get {v : Vector α n} {x : α} : x ∈ v.toList ↔ ∃ i, v.get i = x := by
  rw [Vector.mem_toList_iff, Vector.mem_iff_getElem]
  exact ⟨fun ⟨i, bound, same⟩ => ⟨⟨i, bound⟩, same⟩, fun ⟨i, same⟩ => ⟨i, i.isLt, same⟩⟩

omit [Scalar α] [BinaryScalar α] in
theorem get_mem_toList (v : Vector α n) (i : Fin n) : v.get i ∈ v.toList :=
  mem_toList_iff_get.mpr ⟨i, rfl⟩

omit [Scalar α] [BinaryScalar α] in
theorem forall_mem_toList_iff {v : Vector α n} {P : α → Prop} :
    (∀ x ∈ v.toList, P x) ↔ ∀ i, P (v.get i) := by
  simp only [mem_toList_iff_get, forall_exists_index, forall_apply_eq_imp_iff]

theorem maxAbsFrom_of_numbers {largest : α} (number : isNaN largest = false)
    (numbers : ∀ x ∈ xs, isNaN x = false) :
    maxAbsFrom largest xs = xs.foldl (fun m x => larger m (magnitude x)) largest := by
  induction xs generalizing largest with
  | nil => rfl
  | cons x xs ih =>
      obtain ⟨first, rest⟩ := List.forall_mem_cons.mp numbers
      refine (congrArg (maxAbsFrom · xs) (grow_of_numbers number first)).trans ?_
      exact ih (larger_le_iff (z := 0.0) number).1 rest

section Distinct

variable [DistinctValues α] [NeZero n] {v : Vector α n}

theorem maxAbs_largest (numbers : ∀ i, isNaN (v.get i) = false) :
    Largest (fun i => magnitude (v.get i)) (maxAbs.norm v) := by
  have numbers' : ∀ x ∈ v.toList, isNaN x = false := forall_mem_toList_iff.mpr numbers
  have number : isNaN (maxAbsFrom 0.0 v.toList) = false :=
    (maxAbsFrom_reveals v.toList).number_iff.mpr numbers'
  have norm_eq : maxAbs.norm v = v.toList.foldl (fun m x => larger m (magnitude x)) 0.0 :=
    (if_neg (NeZero.ne n)).trans (maxAbsFrom_of_numbers isNaN_zero numbers')
  rw [maxAbsFrom_of_numbers isNaN_zero numbers', ← norm_eq] at number
  have step (m x : α) : id (larger m (magnitude x)) = larger (id m) (magnitude x) := rfl
  have among := foldl_larger_eq id step 0.0 v.toList
  have bound := (foldl_le_iff id (fun m x _ => step m x) isNaN_zero v.toList).mp
    (norm_eq ▸ LawfulScalar.le_refl number)
  refine .of_bound (fun _ => unsigned_magnitude _) (fun i => ?_) ?_
  · refine norm_eq ▸ (bound.2 _ (get_mem_toList v i)).resolve_left ?_
    rw [isNaN_magnitude, numbers i]
    exact Bool.false_ne_true
  · rw [norm_eq]
    refine among.imp_right fun ⟨x, mem, same⟩ => ?_
    obtain ⟨i, rfl⟩ := mem_toList_iff_get.mp mem
    exact ⟨i, same⟩

theorem maxAbs_perm {w : Vector α n} (numbers : ∀ i, isNaN (v.get i) = false)
    (same : w.toList.Perm v.toList) : maxAbs.norm w = maxAbs.norm v := by
  have there {u u' : Vector α n} (same : u.toList.Perm u'.toList) (i : Fin n) :
      ∃ j, u'.get j = u.get i := mem_toList_iff_get.mp (same.mem_iff.mp (get_mem_toList u i))
  have numbers' (i : Fin n) : isNaN (w.get i) = false := by
    obtain ⟨j, at_j⟩ := there same i
    exact at_j ▸ numbers j
  have into (i : Fin n) : ∃ j, magnitude (v.get j) = magnitude (w.get i) :=
    (there same i).imp fun _ => congrArg magnitude
  have onto (i : Fin n) : ∃ j, magnitude (w.get j) = magnitude (v.get i) :=
    (there same.symm i).imp fun _ => congrArg magnitude
  exact ((maxAbs_largest numbers').of_range into onto).unique
    (fun _ => unsigned_magnitude _) (maxAbs_largest numbers)

end Distinct

/-- A number below another one is finite, unless it is below zero. -/
theorem isFinite_of_lt {x t : α} (nonneg : 0.0 ≤ x) (below : x < t) : isFinite x = true := by
  obtain ⟨number, number'⟩ := LawfulScalar.isNaN_of_le (le_of_lt below)
  rw [lt_iff_real number number'] at below
  rw [le_iff_real isNaN_zero number, real_zero] at nonneg
  refine isFinite_iff_real.mpr ⟨number, ?_⟩
  rw [abs_of_nonneg nonneg]
  exact below.trans_le ((le_abs_self _).trans (abs_real_le t))

/-- A norm is a NaN if a component is one, and otherwise it is not below zero and is infinite if a
component is.  So whatever is below a bound vouches for all components.  The largest magnitude is
the same in every order. -/
theorem norm_hides_nothing {n : Nat} (nonempty : n ≠ 0) (word : n < 2 ^ 64) (v : Vector Float n) :
    (∀ kind : ResidualNorm,
      (isNaN (kind.norm v) = true ↔ ∃ i, isNaN (v.get i) = true) ∧
      ((∀ i, isNaN (v.get i) = false) → isNaN (kind.norm v) = false ∧ 0.0 ≤ kind.norm v ∧
        ((∃ i, isFinite (v.get i) = false) → kind.norm v = 1.0 / 0.0)) ∧
      ∀ t, kind.norm v < t → ∀ i, isFinite (v.get i) = true) ∧
    ((∀ i, isNaN (v.get i) = false) → Largest (fun i => magnitude (v.get i)) (maxAbs.norm v) ∧
      ∀ w : Vector Float n, w.toList.Perm v.toList → maxAbs.norm w = maxAbs.norm v) := by
  obtain ⟨count, pos⟩ := count_spec nonempty word
  have : NeZero n := ⟨nonempty⟩
  refine ⟨fun kind => ?_, fun numbers => ⟨maxAbs_largest numbers, fun w => maxAbs_perm numbers⟩⟩
  obtain ⟨number_iff, nonneg, finite⟩ := norm_reveals kind nonempty v count pos
  rw [forall_mem_toList_iff] at number_iff
  refine ⟨?_, fun numbers => ?_, fun t below => ?_⟩
  · rw [← not_iff_not, Bool.not_eq_true, number_iff]
    simp
  · have number := number_iff.mpr numbers
    refine ⟨number, nonneg number, fun ⟨i, infinite⟩ => eq_infinity (nonneg number) ?_⟩
    by_contra finite'
    have := finite (Bool.not_eq_false _ |>.mp finite') _ (get_mem_toList v i)
    rw [infinite] at this
    cases this
  · have number := (LawfulScalar.isNaN_of_le (le_of_lt below)).1
    exact forall_mem_toList_iff.mp (finite (isFinite_of_lt (nonneg number) below))

/-- A NaN at the end, and an infinity below zero. -/
theorem norm_hides_nothing_last :
    3 ≠ 0 ∧ isNaN (maxAbs.norm (#v[3.0, -4.0, 0.0 / 0.0] : Vector Float 3)) = true ∧
      rms.norm (#v[3.0, -4.0, -1.0 / 0.0] : Vector Float 3) = 1.0 / 0.0 := by
  obtain ⟨nan, -⟩ := norm_hides_nothing three_ne_zero (by decide) #v[3.0, -4.0, 0.0 / 0.0]
  obtain ⟨infinite, -⟩ := norm_hides_nothing three_ne_zero (by decide) #v[3.0, -4.0, -1.0 / 0.0]
  have numbers : ∀ i, isNaN ((#v[3.0, -4.0, -1.0 / 0.0] : Vector Float 3).get i) = false := by
    decide +kernel
  exact ⟨three_ne_zero, (nan maxAbs).1.mpr ⟨2, by decide +kernel⟩,
    ((infinite rms).2.1 numbers).2.2 ⟨2, by decide +kernel⟩⟩

end Nonlinear.ResidualNorm
