import Nonlinear.Scalar

/-! # The order of a scalar arithmetic

Rounded and exact arithmetic have their comparisons in common: a preorder on all numbers but
the NaNs, which compare with nothing.  `LawfulScalar` is that common part, so what rests on
comparisons alone is proved once for every arithmetic.
-/

namespace Nonlinear

open Scalar

/-- The laws of comparison that hold in every arithmetic the solvers run in. -/
class LawfulScalar (α : Type) [Scalar α] : Prop where
  le_refl {x : α} : isNaN x = false → x ≤ x
  le_trans {x y z : α} : x ≤ y → y ≤ z → x ≤ z
  le_total {x y : α} : isNaN x = false → isNaN y = false → x ≤ y ∨ y ≤ x
  lt_iff {x y : α} : x < y ↔ x ≤ y ∧ ¬ y ≤ x
  beq_iff {x y : α} : (x == y) = true ↔ x ≤ y ∧ y ≤ x
  isNaN_of_le {x y : α} : x ≤ y → isNaN x = false ∧ isNaN y = false
  isNaN_of_isFinite {x : α} : isFinite x = true → isNaN x = false
  isFinite_zero : isFinite (0.0 : α) = true
  /-- A number that is not finite and not below zero exceeds every finite one. -/
  lt_of_infinite {x y : α} :
    isNaN y = false → isFinite y = false → 0.0 ≤ y → isFinite x = true → x < y
  isNaN_magnitude (x : α) : isNaN (magnitude x) = isNaN x
  isFinite_magnitude (x : α) : isFinite (magnitude x) = isFinite x
  magnitude_nonneg {x : α} : isNaN x = false → 0.0 ≤ magnitude x
  magnitude_beq {x : α} : 0.0 ≤ x → (magnitude x == x) = true
  isNegative_of_neg {x : α} : x < 0.0 → isNegative x = true
  isNegative_of_pos {x : α} : 0.0 < x → isNegative x = false
  sqrt_nonneg {x : α} : isNaN (sqrt x) = false → 0.0 ≤ sqrt x

namespace Scalar

variable {α : Type} [Scalar α] [LawfulScalar α] {x y z : α}

theorem le_of_lt (h : x < y) : x ≤ y := (LawfulScalar.lt_iff.mp h).1

theorem not_le_of_lt (h : x < y) : ¬ y ≤ x := (LawfulScalar.lt_iff.mp h).2

theorem not_lt_of_le (h : x ≤ y) : ¬ y < x := fun l => not_le_of_lt l h

theorem not_lt_of_lt (h : x < y) : ¬ y < x := not_lt_of_le (le_of_lt h)

theorem lt_of_lt_of_le (h : x < y) (k : y ≤ z) : x < z :=
  LawfulScalar.lt_iff.mpr
    ⟨LawfulScalar.le_trans (le_of_lt h) k, fun l => not_le_of_lt h (LawfulScalar.le_trans k l)⟩

theorem lt_of_le_of_lt (h : x ≤ y) (k : y < z) : x < z :=
  LawfulScalar.lt_iff.mpr
    ⟨LawfulScalar.le_trans h (le_of_lt k), fun l => not_le_of_lt k (LawfulScalar.le_trans l h)⟩

theorem lt_trans (h : x < y) (k : y < z) : x < z := lt_of_lt_of_le h (le_of_lt k)

theorem le_of_not_lt (hx : isNaN x = false) (hy : isNaN y = false) (h : ¬ x < y) : y ≤ x := by
  by_cases k : y ≤ x
  · exact k
  · have l : x ≤ y := (LawfulScalar.le_total hx hy).resolve_right k
    exact absurd (LawfulScalar.lt_iff.mpr ⟨l, k⟩) h

theorem lt_of_not_le (hx : isNaN x = false) (hy : isNaN y = false) (h : ¬ y ≤ x) : x < y :=
  LawfulScalar.lt_iff.mpr ⟨(LawfulScalar.le_total hx hy).resolve_right h, h⟩

theorem beq_comm (x y : α) : (x == y) = (y == x) := by
  rw [Bool.eq_iff_iff, LawfulScalar.beq_iff, LawfulScalar.beq_iff]
  exact And.comm

/-- The larger of a number and anything else is a number, and a NaN does not count for it. -/
theorem larger_le_iff (hx : isNaN x = false) :
    isNaN (larger x y) = false ∧ (larger x y ≤ z ↔ x ≤ z ∧ (isNaN y = true ∨ y ≤ z)) := by
  unfold larger
  split
  · rename_i above
    have number := (LawfulScalar.isNaN_of_le (le_of_lt above)).2
    refine ⟨number, fun le => ⟨LawfulScalar.le_trans (le_of_lt above) le, .inr le⟩, ?_⟩
    rintro ⟨-, nan | le⟩
    · rw [number] at nan
      cases nan
    · exact le
  · rename_i notAbove
    rw [hx, if_neg Bool.false_ne_true]
    refine ⟨hx, fun le => ⟨le, ?_⟩, And.left⟩
    cases hy : isNaN y with
    | true => exact .inl rfl
    | false => exact .inr (LawfulScalar.le_trans (le_of_not_lt hx hy notAbove) le)

/-- A pass that keeps the largest of some numbers.  A NaN is passed over. -/
theorem foldl_le_iff {σ ι : Type} (kept : σ → α) {value : ι → α} {next : σ → ι → σ}
    (step : ∀ s i, isNaN (kept s) = false → kept (next s i) = larger (kept s) (value i)) {s : σ}
    (number : isNaN (kept s) = false) (items : List ι) :
    kept (items.foldl next s) ≤ z ↔
      kept s ≤ z ∧ ∀ i ∈ items, isNaN (value i) = true ∨ value i ≤ z := by
  induction items generalizing s with
  | nil => simp
  | cons i items ih =>
      obtain ⟨number', le_iff⟩ := larger_le_iff (y := value i) (z := z) number
      rw [← step s i number] at number' le_iff
      rw [List.foldl_cons, ih number', le_iff, List.forall_mem_cons, and_assoc]

theorem isNaN_zero : isNaN (0.0 : α) = false :=
  LawfulScalar.isNaN_of_isFinite LawfulScalar.isFinite_zero

/-- A number that counts as zero: neither below nor above it. -/
theorem beq_zero_iff (hx : isNaN x = false) : (x == 0.0) = true ↔ ¬ x < 0.0 ∧ ¬ 0.0 < x := by
  rw [LawfulScalar.beq_iff]
  constructor
  · intro h
    exact ⟨not_lt_of_le h.2, not_lt_of_le h.1⟩
  · intro h
    exact ⟨le_of_not_lt isNaN_zero hx h.2, le_of_not_lt hx isNaN_zero h.1⟩

theorem zero_or_neg_or_pos (hx : isNaN x = false) : (x == 0.0) = true ∨ x < 0.0 ∨ 0.0 < x := by
  by_cases h : x < 0.0 ∨ 0.0 < x
  · exact .inr h
  · exact .inl ((beq_zero_iff hx).mpr (not_or.mp h))

theorem magnitude_le_of_beq_zero {t : α} (h : (x == 0.0) = true) (ht : 0.0 ≤ t) :
    magnitude x ≤ t := by
  obtain ⟨le, ge⟩ := LawfulScalar.beq_iff.mp h
  have same : magnitude x ≤ x := (LawfulScalar.beq_iff.mp (LawfulScalar.magnitude_beq ge)).1
  exact LawfulScalar.le_trans same (LawfulScalar.le_trans le ht)

/-- One of the two numbers is positive and the other negative. -/
def Opposed (x y : α) : Prop := (x < 0.0 ∧ 0.0 < y) ∨ (0.0 < x ∧ y < 0.0)

omit [LawfulScalar α] in
theorem Opposed.symm (h : Opposed x y) : Opposed y x := by
  rcases h with ⟨hx, hy⟩ | ⟨hx, hy⟩
  · exact .inr ⟨hy, hx⟩
  · exact .inl ⟨hy, hx⟩

/-- Sign bits tell the signs of numbers that exceed a tolerance. -/
theorem opposed_of_isNegative {t : α} (ht : 0.0 ≤ t)
    (hx : isFinite x = true) (hy : isFinite y = true)
    (farX : ¬ magnitude x ≤ t) (farY : ¬ magnitude y ≤ t)
    (signs : (isNegative x == isNegative y) = false) : Opposed x y := by
  have signed : ∀ {z : α}, isFinite z = true → ¬ magnitude z ≤ t → z < 0.0 ∨ 0.0 < z :=
    fun finite far => (zero_or_neg_or_pos (LawfulScalar.isNaN_of_isFinite finite)).resolve_left
      fun zero => far (magnitude_le_of_beq_zero zero ht)
  rcases signed hx farX with nx | px <;> rcases signed hy farY with ny | py
  · simp [LawfulScalar.isNegative_of_neg nx, LawfulScalar.isNegative_of_neg ny] at signs
  · exact .inl ⟨nx, py⟩
  · exact .inr ⟨px, ny⟩
  · simp [LawfulScalar.isNegative_of_pos px, LawfulScalar.isNegative_of_pos py] at signs

end Scalar

end Nonlinear
