import Mathlib
import Nonlinear.Proofs.FloatingPoint.Infinity
import Nonlinear.Search.Sample
import Nonlinear.Solution

/-! # Steps of a search in rounded arithmetic

Rounding does not take a sum across a number, and a fraction of a rounded distance does not
exceed the distance.  So a search stays between two numbers as long as its steps are such
fractions, and are lengthened in the right direction and not too far.
-/

namespace Nonlinear

open Scalar BinaryScalar FloatingPoint

variable {α : Type} [Scalar α]

/-- A finite number between two others, which may come in either order. -/
structure Between (a b x : α) : Prop where
  finite : isFinite x = true
  order : a ≤ x ∧ x ≤ b ∨ b ≤ x ∧ x ≤ a

instance (a b x : α) : Decidable (Between a b x) :=
  decidable_of_iff (isFinite x = true ∧ (a ≤ x ∧ x ≤ b ∨ b ≤ x ∧ x ≤ a))
    ⟨fun ⟨finite, order⟩ => ⟨finite, order⟩, fun between => ⟨between.finite, between.order⟩⟩

/-- A search calls its function only between the two numbers, and answers only such a point. -/
structure StaysBetween {ε : Type} (a b : α)
    (course : Run (SearchEntry α ε) (Failure α) (Solution α)) : Prop where
  arguments : ∀ x ∈ SearchEntry.arguments course.trace, Between a b x
  answer : ∀ r, course.outcome = .ok r → Between a b r.x

variable [BinaryScalar α] {a b x y z k r m : α}

theorem between_iff (ha : isFinite a = true) (hb : isFinite b = true) :
    Between a b x ↔ isFinite x = true ∧ real x ∈ Set.uIcc (real a) (real b) := by
  have na := isNaN_of_isFinite ha
  have nb := isNaN_of_isFinite hb
  constructor
  · rintro ⟨finite, order⟩
    have nx := isNaN_of_isFinite finite
    rw [le_iff_real na nx, le_iff_real nx nb, le_iff_real nb nx, le_iff_real nx na] at order
    exact ⟨finite, Set.mem_uIcc.mpr order⟩
  · rintro ⟨finite, mem⟩
    have nx := isNaN_of_isFinite finite
    refine ⟨finite, ?_⟩
    rw [le_iff_real na nx, le_iff_real nx nb, le_iff_real nb nx, le_iff_real nx na]
    exact Set.mem_uIcc.mp mem

theorem between_left (ha : isFinite a = true) (hb : isFinite b = true) : Between a b a :=
  (between_iff ha hb).mpr ⟨ha, Set.left_mem_uIcc⟩

theorem between_right (ha : isFinite a = true) (hb : isFinite b = true) : Between a b b :=
  (between_iff ha hb).mpr ⟨hb, Set.right_mem_uIcc⟩

theorem Between.trans (ha : isFinite a = true) (hb : isFinite b = true) (hx : Between a b x)
    (hy : Between a b y) (hz : Between x y z) : Between a b z := by
  obtain ⟨finite, mem⟩ := (between_iff hx.finite hy.finite).mp hz
  exact (between_iff ha hb).mpr ⟨finite, Set.uIcc_subset_uIcc ((between_iff ha hb).mp hx).2
    ((between_iff ha hb).mp hy).2 mem⟩

/-- A step on the way to a number, rounded, does not go beyond it. -/
theorem add_between (hx : isFinite x = true) (hy : isFinite y = true) (hm : isFinite m = true)
    (mem : real m ∈ Set.uIcc 0 (real y - real x)) : Between x y (x + m) := by
  have sum := add_rounded hx hm
  have inside : real x + real m ∈ Set.uIcc (real x) (real y) := by
    rw [Set.mem_uIcc] at mem ⊢
    rcases mem with ⟨low, high⟩ | ⟨low, high⟩
    · exact .inl ⟨by linarith, by linarith⟩
    · exact .inr ⟨by linarith, by linarith⟩
  exact (between_iff hx hy).mpr ⟨sum.isFinite hx hy inside, sum.mem_uIcc inside⟩

/-- The distance of two numbers is finite where that of two numbers further apart is. -/
theorem isFinite_sub_of_le (ha : isFinite a = true) (hb : isFinite b = true)
    (hx : isFinite x = true) (hy : isFinite y = true) (wide : isFinite (b - a) = true)
    (le : |real y - real x| ≤ |real b - real a|) : isFinite (y - x) = true := by
  have difference := sub_rounded hy hx
  refine isFinite_iff_real.mpr ⟨difference.isNaN, ?_⟩
  have outer := (isFinite_iff_real.mp wide).2
  rw [(sub_rounded hb ha).real] at outer
  rw [difference.real]
  exact (abs_clip_mono le).trans_lt outer

/-- A fraction of the rounded distance goes some of the way, or nowhere. -/
theorem fraction_mem [BinaryConstants α] {κ : ℚ} (hx : isFinite x = true) (hy : isFinite y = true)
    (wide : isFinite (y - x) = true) (fraction : Rounded z (κ * real (y - x))) (nonneg : 0 ≤ κ)
    (small : κ ≤ 3 / 4) :
    isFinite z = true ∧ real z ∈ Set.uIcc 0 (real y - real x) := by
  have finite := (isFinite_iff_real.mp wide).2
  have distance := (sub_rounded hy hx).real
  have whole : Whole (format α) (real y - real x) := (grid_real y).whole.sub (grid_real x).whole
  constructor
  · refine isFinite_iff_real.mpr ⟨fraction.isNaN, ?_⟩
    have bound : |κ * real (y - x)| ≤ |real (y - x)| := by
      rw [abs_mul, abs_of_nonneg nonneg]
      exact mul_le_of_le_one_left (abs_nonneg _) (by linarith)
    calc |real z| = |clip (format α) (κ * real (y - x))| := by rw [fraction.real]
      _ ≤ |clip (format α) (real (y - x))| := abs_clip_mono bound
      _ = |real (y - x)| := by rw [clip_real]
      _ < limit (format α) := finite
  · rw [distance] at finite
    rw [fraction.real, distance]
    exact clip_fraction BinaryConstants.precise whole nonneg small finite

theorem half_rounded [BinaryConstants α] (hx : isFinite x = true) :
    Rounded (x / 2.0) (real x / 2) := by
  have two := BinaryConstants.two (α := α)
  have half := div_rounded hx two.isFinite (by rw [two.real]; exact two_ne_zero)
  rwa [two.real] at half

theorem half_nonneg [BinaryConstants α] (number : isNaN (x / 2.0) = false)
    (nonneg : 0 ≤ real x) : 0 ≤ real (x / 2.0) := by
  have two := BinaryConstants.two (α := α)
  rcases finite_or_infinite (isNaN_of_div number).1 with finite | infinite
  · exact (half_rounded finite).nonneg (by positivity)
  · have same : value (x / 2.0) = value x :=
      infinite.div_pos two.isFinite (by rw [two.real]; exact two_pos)
    rwa [real, same]

/-- A factor of at most one does not enlarge. -/
theorem mul_le_right (hk : isFinite k = true) (hx : isFinite x = true) (nonneg : 0 ≤ real k)
    (le_one : real k ≤ 1) (nonneg_x : 0 ≤ real x) :
    isFinite (k * x) = true ∧ 0 ≤ real (k * x) := by
  have product := mul_rounded hk hx
  exact ⟨product.isFinite_of_le hx (by positivity) (mul_le_of_le_one_left nonneg_x le_one),
    product.nonneg (by positivity)⟩

/-- What lengthening does to a step. -/
theorem real_lengthen (hr : isNaN r = false) (hm : isNaN m = false) :
    real (lengthen r m) =
      if |real m| < real r then (if 0 < real m then real r else -real r) else real m := by
  have nm : isNaN (magnitude m) = false := (isNaN_magnitude m).trans hm
  have short : magnitude m < r ↔ |real m| < real r := by
    rw [lt_iff_real nm hr, real_magnitude]
  simp only [lengthen, short, pos_iff_real hm]
  split
  · split
    · rfl
    · exact real_neg r
  · rfl

theorem isFinite_lengthen (hr : isFinite r = true) (hm : isFinite m = true) :
    isFinite (lengthen r m) = true := by
  unfold lengthen
  split
  · split
    · exact hr
    · exact (isFinite_neg r).trans hr
  · exact hm

/-- A step on the way to a number is still one when it is lengthened to less than the whole way,
unless it is zero and the way goes up. -/
theorem lengthen_mem {w : ℚ} (hr : isFinite r = true) (hm : isFinite m = true)
    (nonneg : 0 ≤ real r) (mem : real m ∈ Set.uIcc 0 w) (room : real r ≤ |w|)
    (down : real m = 0 → w ≤ 0) : real (lengthen r m) ∈ Set.uIcc 0 w := by
  rw [real_lengthen (isNaN_of_isFinite hr) (isNaN_of_isFinite hm)]
  rw [Set.mem_uIcc] at mem ⊢
  split
  · split
    · rename_i up
      obtain ⟨-, high⟩ := mem.resolve_right fun ⟨_, le⟩ => absurd up (not_lt_of_ge le)
      rw [abs_of_pos (up.trans_le high)] at room
      exact .inl ⟨nonneg, room⟩
    · rename_i notUp
      have below : w ≤ 0 := by
        rcases mem with ⟨low, _⟩ | ⟨low, high⟩
        · exact down (le_antisymm (not_lt.mp notUp) low)
        · exact low.trans high
      rw [abs_of_nonpos below] at room
      exact .inr ⟨by linarith, by linarith⟩
  · exact mem

end Nonlinear
