import Mathlib.Data.List.Induction
import Nonlinear.Proofs.Scalar.Order
import Nonlinear.ResidualNorm

/-! # Norms of residuals are not negative

The largest magnitude is a NaN if a component is one, and it bounds every component otherwise.  Any
norm is a NaN or at least zero, so a norm that is not finite is never small.
-/

namespace Nonlinear.Scalar

variable {α : Type} [Scalar α]

/-- A number that is not below zero, and that is finite only if another one is. -/
structure Bounds (z x : α) : Prop where
  nonneg : 0.0 ≤ z
  finite : Scalar.isFinite z = true → Scalar.isFinite x = true

variable [LawfulScalar α] {m x : α}

theorem bounds_of_le (nonneg : 0.0 ≤ x) (le : x ≤ m) : Bounds m x where
  nonneg := LawfulScalar.le_trans nonneg le
  finite finite := by
    by_contra infinite
    rw [Bool.not_eq_true] at infinite
    exact not_lt_of_le le
      (LawfulScalar.lt_of_infinite (LawfulScalar.isNaN_of_le nonneg).2 infinite nonneg finite)

theorem bounds_larger (hm : 0.0 ≤ m) (number : isNaN x = false) :
    Bounds (larger m (magnitude x)) m ∧ Bounds (larger m (magnitude x)) x := by
  have old := (LawfulScalar.isNaN_of_le hm).2
  have number' := (LawfulScalar.isNaN_magnitude x).trans number
  have least := LawfulScalar.le_refl (larger_le_iff (y := magnitude x) (z := 0.0) old).1
  obtain ⟨le, le'⟩ := (larger_le_iff old).2.mp least
  have above := bounds_of_le (LawfulScalar.magnitude_nonneg number)
    (le'.resolve_left (by rw [number']; exact Bool.false_ne_true))
  refine ⟨bounds_of_le hm le, above.nonneg, fun finite => ?_⟩
  exact (LawfulScalar.isFinite_magnitude x).symm.trans (above.finite finite)

end Nonlinear.Scalar

namespace Nonlinear.ResidualNorm

open Scalar

variable {α : Type} [Scalar α]

/-- What keeping the larger magnitude makes of the largest one so far. -/
def grow (largest x : α) : α :=
  if isNaN largest then largest else if isNaN x then x else larger largest (magnitude x)

theorem maxAbsFrom_eq_foldl (largest : α) (xs : List α) :
    maxAbsFrom largest xs = xs.foldl grow largest := by
  induction xs generalizing largest with
  | nil => rfl
  | cons x xs ih => exact ih _

theorem grow_of_numbers {largest x : α} (number : isNaN largest = false)
    (number' : isNaN x = false) : grow largest x = larger largest (magnitude x) := by
  rw [grow, number, number', if_neg Bool.false_ne_true, if_neg Bool.false_ne_true]

/-- What a number that was computed from some others tells about them. -/
structure Reveals (xs : List α) (m : α) : Prop where
  number_iff : isNaN m = false ↔ ∀ x ∈ xs, isNaN x = false
  nonneg : isNaN m = false → 0.0 ≤ m
  finite : isFinite m = true → ∀ x ∈ xs, isFinite x = true

variable [LawfulScalar α] {xs : List α} {m m' x : α}

theorem reveals_nil : Reveals ([] : List α) 0.0 where
  number_iff := iff_of_true isNaN_zero fun _ mem => absurd mem List.not_mem_nil
  nonneg := LawfulScalar.le_refl
  finite _ _ mem := absurd mem List.not_mem_nil

/-- One more number is revealed by a result that is a NaN if either is one, and bounds both. -/
theorem Reveals.snoc (h : Reveals xs m)
    (numbers : isNaN m' = false → isNaN m = false ∧ isNaN x = false)
    (bounds : 0.0 ≤ m → isNaN x = false → Bounds m' m ∧ Bounds m' x) :
    Reveals (xs ++ [x]) m' := by
  have bounds' (number : isNaN m' = false) : Bounds m' m ∧ Bounds m' x := by
    obtain ⟨old, new⟩ := numbers number
    exact bounds (h.nonneg old) new
  refine ⟨?_, fun number => (bounds' number).1.nonneg, fun finite => ?_⟩
  · rw [List.forall_mem_append, List.forall_mem_singleton, ← h.number_iff]
    refine ⟨numbers, fun ⟨old, new⟩ => ?_⟩
    exact (LawfulScalar.isNaN_of_le (bounds (h.nonneg old) new).1.nonneg).2
  · obtain ⟨old, new⟩ := bounds' (LawfulScalar.isNaN_of_isFinite finite)
    exact List.forall_mem_append.mpr
      ⟨h.finite (old.finite finite), List.forall_mem_singleton.mpr (new.finite finite)⟩

/-- The same numbers are revealed by a result that is a NaN if this one is, and bounds it. -/
theorem Reveals.map (h : Reveals xs m) (number : isNaN m' = false → isNaN m = false)
    (bounds : 0.0 ≤ m → Bounds m' m) : Reveals xs m' where
  number_iff := by
    rw [← h.number_iff]
    exact ⟨number, fun old => (LawfulScalar.isNaN_of_le (bounds (h.nonneg old)).nonneg).2⟩
  nonneg good := (bounds (h.nonneg (number good))).nonneg
  finite finite :=
    have good := number (LawfulScalar.isNaN_of_isFinite finite)
    h.finite ((bounds (h.nonneg good)).finite finite)

theorem foldl_reveals {next : α → α → α}
    (step : ∀ {xs m}, Reveals xs m → ∀ x, Reveals (xs ++ [x]) (next m x)) (xs : List α) :
    Reveals xs (xs.foldl next 0.0) := by
  induction xs using List.reverseRecOn with
  | nil => exact reveals_nil
  | append_singleton xs x ih =>
      rw [List.foldl_append]
      exact step ih x

theorem Reveals.grow (h : Reveals xs m) (x : α) : Reveals (xs ++ [x]) (grow m x) := by
  refine h.snoc (fun number => ?_) fun hm number => ?_
  · unfold ResidualNorm.grow at number
    split at number
    · rename_i bad
      rw [number] at bad
      cases bad
    · rename_i good
      split at number
      · rename_i bad
        rw [number] at bad
        cases bad
      · exact ⟨Bool.eq_false_iff.mpr good, Bool.eq_false_iff.mpr ‹_›⟩
  · rw [grow_of_numbers (LawfulScalar.isNaN_of_le hm).2 number]
    exact bounds_larger hm number

theorem maxAbsFrom_reveals (xs : List α) : Reveals xs (maxAbsFrom 0.0 xs) := by
  rw [maxAbsFrom_eq_foldl]
  exact foldl_reveals Reveals.grow xs

theorem norm_nonneg {n : Nat} {kind : ResidualNorm} {v : Vector α n}
    (number : isNaN (kind.norm v) = false) : 0.0 ≤ kind.norm v := by
  unfold norm at number ⊢
  split at number
  · rw [if_pos ‹_›]
    exact LawfulScalar.le_refl isNaN_zero
  · rw [if_neg ‹_›]
    cases kind with
    | maxAbs =>
        exact (maxAbsFrom_reveals v.toList).nonneg number
    | euclidean => exact LawfulScalar.sqrt_nonneg number
    | rms => exact LawfulScalar.sqrt_nonneg number

/-- A norm that is not finite is not below a finite bound. -/
theorem not_lt_of_not_finite {n : Nat} {kind : ResidualNorm} {v : Vector α n} {bound : α}
    (infinite : isFinite (kind.norm v) = false) (finite : isFinite bound = true) :
    ¬ kind.norm v < bound := by
  intro below
  have number : isNaN (kind.norm v) = false := (LawfulScalar.isNaN_of_le (le_of_lt below)).1
  exact not_lt_of_lt below
    (LawfulScalar.lt_of_infinite number infinite (norm_nonneg number) finite)

end Nonlinear.ResidualNorm
