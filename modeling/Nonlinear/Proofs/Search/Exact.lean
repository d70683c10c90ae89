import Mathlib
import Nonlinear.Proofs.Config
import Nonlinear.Proofs.Scalar.Exact
import Nonlinear.Proofs.Search.Course

/-! # Steps of a search in exact arithmetic

A proposed step is lengthened to the resolution, but keeps its direction.
-/

namespace Nonlinear

open Scalar

variable {K : Type} [Field K] [LinearOrder K]

section Between

variable [IsStrictOrderedRing K] {b c m x : K}

theorem mem_uIoo_iff : x ∈ Set.uIoo b c ↔ 0 < (x - b) * (c - x) := by
  rw [mul_pos_iff, sub_pos, sub_pos, sub_neg, sub_neg]
  rcases le_total b c with le | le
  · rw [Set.uIoo_of_le le, Set.mem_Ioo]
    constructor
    · exact .inl
    · rintro (inside | ⟨below, above⟩)
      · exact inside
      · exact absurd (below.trans_le le) (not_lt_of_gt above)
  · rw [Set.uIoo_of_ge le, Set.mem_Ioo]
    constructor
    · exact fun inside => .inr inside.symm
    · rintro (⟨above, below⟩ | inside)
      · exact absurd (below.trans_le le) (not_lt_of_gt above)
      · exact inside.symm

theorem add_mem_uIoo (toward : 0 < m * (c - b)) (short : |m| < |c - b|) :
    b + m ∈ Set.uIoo b c := by
  rw [mem_uIoo_iff, add_sub_cancel_left, ← sub_sub]
  rcases mul_pos_iff.mp toward with ⟨m_pos, w_pos⟩ | ⟨m_neg, w_neg⟩
  · rw [abs_of_pos m_pos, abs_of_pos w_pos] at short
    exact mul_pos m_pos (sub_pos.mpr short)
  · rw [abs_of_neg m_neg, abs_of_neg w_neg, neg_lt_neg_iff] at short
    exact mul_pos_of_neg_of_neg m_neg (sub_neg.mpr short)

end Between

variable [ExactConstants K] [IsStrictOrderedRing K]

theorem SearchConfig.bounds_of_valid {c : SearchConfig K} (h : c.validate = .ok ()) :
    0 < c.tolerance ∧ 0 ≤ c.functionTolerance := by
  obtain ⟨⟨tolerance, -⟩, ⟨functionTolerance, -⟩, -⟩ := validate_ok_iff.mp h
  rw [literal_zero] at tolerance functionTolerance
  exact ⟨tolerance, functionTolerance⟩

omit [IsStrictOrderedRing K] in
theorem ScalarFunction.gives_of_total {f : ScalarFunction K} (total : ∀ k x, ∃ y, f k x = .ok y)
    (k : Nat) (x : K) : ∃ p, f.Gives k x p := by
  obtain ⟨y, answer⟩ := total k x
  exact ⟨⟨x, y⟩, rfl, answer, rfl⟩

theorem lengthen_exact (r m : K) :
    lengthen r m = if |m| < r then (if 0 < m then r else -r) else m := by
  rw [lengthen, literal_zero]
  rfl

/-- A step that is long enough is taken as it is. -/
theorem lengthen_of_long {r m : K} (long : r ≤ |m|) : lengthen r m = m := by
  rw [lengthen_exact, if_neg (not_lt_of_ge long)]

theorem abs_lengthen {r : K} (hr : 0 ≤ r) (m : K) : |lengthen r m| = max |m| r := by
  rw [lengthen_exact]
  split
  · rw [max_eq_right_of_lt ‹_›]
    split
    · exact abs_of_nonneg hr
    · rw [abs_neg, abs_of_nonneg hr]
  · exact (max_eq_left (not_lt.mp ‹_›)).symm

theorem lengthen_pos {r m : K} (hr : 0 < r) (hm : 0 < m) : 0 < lengthen r m := by
  rw [lengthen_exact, if_pos hm]
  split
  · exact hr
  · exact hm

/-- A step that is not positive goes down, the empty one too. -/
theorem lengthen_neg {r m : K} (hr : 0 < r) (hm : m ≤ 0) : lengthen r m < 0 := by
  rw [lengthen_exact, if_neg (not_lt_of_ge hm)]
  split
  · exact neg_lt_zero.mpr hr
  · rename_i long
    refine lt_of_le_of_ne hm fun zero => long ?_
    rw [zero, abs_zero]
    exact hr

variable {b c m r : K}

/-- A step that goes some of the way still does so when it is lengthened to less than the whole
way. -/
theorem add_lengthen_mem_uIoo (hr : 0 < r) (toward : 0 < m * (c - b))
    (short : |m| < |c - b|) (narrow : r < |c - b|) : b + lengthen r m ∈ Set.uIoo b c := by
  apply add_mem_uIoo
  · rcases mul_pos_iff.mp toward with ⟨m_pos, w_pos⟩ | ⟨m_neg, w_neg⟩
    · exact mul_pos (lengthen_pos hr m_pos) w_pos
    · exact mul_pos_of_neg_of_neg (lengthen_neg hr m_neg.le) w_neg
  · rw [abs_lengthen hr.le]
    exact max_lt short narrow

omit [ExactConstants K] in
/-- A width that every stretch of `m` iterations halves. -/
theorem Scheme.Reaches.width_le_of_halves {α ε σ : Type} [Scalar α] {scheme : Scheme α ε σ}
    {f : ScalarFunction α} {budget : Nat} {starts : List (SearchEntry α ε) → σ × Counters → Prop}
    {w : σ → K} {c : K} {m n : Nat} {trace : List (SearchEntry α ε)} {t : σ × Counters}
    (h : scheme.Reaches f budget starts (m * n) trace t)
    (begins : ∀ trace t, scheme.Reaches f budget starts 0 trace t → w t.1 ≤ c)
    (halves : ∀ i trace s trace' t, scheme.Reaches f budget starts i trace s →
      scheme.Reaches f budget starts (i + m) trace' t → 2 * w t.1 ≤ w s.1) :
    2 ^ n * w t.1 ≤ c := by
  induction n generalizing trace t with
  | zero =>
      rw [pow_zero, one_mul]
      exact begins _ _ h
  | succ n ih =>
      obtain ⟨_, s, before⟩ := h.earlier (Nat.mul_le_mul_left m n.le_succ)
      rw [Nat.mul_succ] at h
      calc 2 ^ (n + 1) * w t.1 = 2 ^ n * (2 * w t.1) := by rw [pow_succ, mul_assoc]
        _ ≤ 2 ^ n * w s.1 :=
            mul_le_mul_of_nonneg_left (halves _ _ _ _ _ before h) (by positivity)
        _ ≤ c := ih before

end Nonlinear
