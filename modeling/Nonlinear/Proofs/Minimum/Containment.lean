import Mathlib
import Nonlinear.Proofs.Minimum.Course
import Nonlinear.Proofs.Minimum.Vertex
import Nonlinear.Proofs.Search.Exact

/-! # Containment of the minimum search in exact arithmetic

Without rounding the best sample stays strictly inside its interval, and every step from it
ends inside the interval again.  A golden-section step goes into the larger part, which is
longer than twice the resolution; a parabolic step is only taken clear of both ends.
-/

namespace Nonlinear.Minimum

variable {K : Type} [Field K] [LinearOrder K] [ExactConstants K]

namespace Interval

variable (s : Interval K)

/-- The end that is farther from the best sample. -/
def far : K := if s.best.x < s.midpoint then s.b else s.a

theorem goldenStep_exact : s.goldenStep = ExactConstants.golden * (s.far - s.best.x) := rfl

variable [IsStrictOrderedRing K] (config : SearchConfig K)

theorem midpoint_exact : s.midpoint = (s.a + s.b) / 2 := by
  show (s.a + s.b) / (2.0 : K) = _
  norm_num

theorem accuracy_exact :
    s.accuracy config = ExactConstants.sqrtEpsilon * |s.best.x| + config.tolerance / 3 := by
  show ExactConstants.sqrtEpsilon * |s.best.x| + config.tolerance / (3.0 : K) = _
  norm_num

theorem accuracy_pos (valid : config.validate = .ok ()) : 0 < s.accuracy config := by
  have constant : 0 ≤ (ExactConstants.sqrtEpsilon : K) := ExactConstants.sqrtEpsilon_nonneg
  have tolerance := (SearchConfig.bounds_of_valid valid).1
  rw [accuracy_exact]
  positivity

theorem settled_iff : s.settled config ↔
    |s.best.x - s.midpoint| ≤ 2 * s.accuracy config - (s.b - s.a) / 2 := by
  have two : (2.0 : K) = 2 := by norm_num
  show |s.best.x - s.midpoint| ≤ (2.0 : K) * s.accuracy config - (s.b - s.a) / (2.0 : K) ↔ _
  rw [two]

/-- In a settled interval no point is far from the best sample. -/
theorem near_of_settled (h : s.settled config) {m : K} (inside : m ∈ Set.Icc s.a s.b) :
    |s.best.x - m| ≤ 2 * s.accuracy config := by
  rw [settled_iff, midpoint_exact, abs_le] at h
  rw [abs_le]
  constructor
  · linarith [inside.2]
  · linarith [inside.1]

/-- In any other interval the farther end is more than twice the resolution away. -/
theorem far_of_unsettled (h : ¬ s.settled config) : 2 * s.accuracy config < |s.far - s.best.x| := by
  rw [settled_iff, not_le] at h
  unfold far
  split
  · rename_i left
    rw [abs_of_neg (sub_neg.mpr left), midpoint_exact] at h
    exact lt_abs.mpr (.inl (by linarith))
  · rename_i right
    rw [abs_of_nonneg (sub_nonneg.mpr (not_lt.mp right)), midpoint_exact] at h
    exact lt_abs.mpr (.inr (by linarith))

theorem golden_mem (valid : config.validate = .ok ()) (h : ¬ s.settled config) :
    s.best.x + lengthen (s.accuracy config) s.goldenStep ∈ Set.uIoo s.best.x s.far := by
  have resolution := s.accuracy_pos config valid
  have away := s.far_of_unsettled config h
  have golden_pos : 0 < (ExactConstants.golden : K) := ExactConstants.golden_pos
  have golden_lt : (ExactConstants.golden : K) < 1 / 2 := ExactConstants.golden_lt_half
  have wide : 0 < |s.far - s.best.x| := by linarith
  rw [goldenStep_exact]
  refine add_lengthen_mem_uIoo resolution ?_ ?_ (by linarith)
  · rw [mul_assoc]
    exact mul_pos golden_pos (mul_self_pos.mpr (abs_pos.mp wide))
  · rw [abs_mul, abs_of_pos golden_pos]
    exact mul_lt_of_lt_one_left wide (by linarith)

/-- The next sample is taken strictly inside the interval and away from the best one. -/
theorem target_mem (valid : config.validate = .ok ()) (h : ¬ s.settled config)
    (inside : s.best.x ∈ Set.Ioo s.a s.b) :
    s.target config ∈ Set.Ioo s.a s.b ∧ s.target config ≠ s.best.x := by
  have resolution := s.accuracy_pos config valid
  obtain ⟨left, right⟩ := inside
  rcases s.move_cases config with golden | ⟨-, parabolic⟩
  · have toward := s.golden_mem config valid h
    replace golden : (s.move config).2 = s.goldenStep := congrArg Prod.snd golden
    rw [← golden] at toward
    refine ⟨?_, fun same => ?_⟩
    · unfold far at toward
      split at toward
      · rw [Set.uIoo_of_lt right] at toward
        exact ⟨left.trans toward.1, toward.2⟩
      · rw [Set.uIoo_of_gt left] at toward
        exact ⟨toward.1, toward.2.trans right⟩
    · rw [show s.best.x + lengthen (s.accuracy config) (s.move config).2 = s.best.x from same]
        at toward
      exact Set.left_notMem_uIoo toward
  · obtain ⟨-, -, -, above, below⟩ := parabolicStep_eq_some_iff.mp parabolic
    show s.best.x + lengthen (s.accuracy config) (s.move config).2 ∈ Set.Ioo s.a s.b ∧
      s.best.x + lengthen (s.accuracy config) (s.move config).2 ≠ s.best.x
    rw [lengthen_exact]
    split
    · -- a tiny step points to an end that is more than twice the resolution away
      split
      · exact ⟨⟨by linarith, by linarith⟩, fun same => by linarith⟩
      · exact ⟨⟨by linarith, by linarith⟩, fun same => by linarith⟩
    · rename_i long
      refine ⟨⟨by linarith, by linarith⟩, fun same => long ?_⟩
      rw [add_eq_left.mp same, abs_zero]
      exact resolution

omit [IsStrictOrderedRing K] in
/-- The best sample stays strictly inside. -/
theorem update_inside {p : Sample K} (inside : s.best.x ∈ Set.Ioo s.a s.b)
    (trial : p.x ∈ Set.Ioo s.a s.b) (new : p.x ≠ s.best.x) :
    (s.update p).best.x ∈ Set.Ioo (s.update p).a (s.update p).b ∧ s.a ≤ (s.update p).a ∧
      (s.update p).b ≤ s.b := by
  obtain ⟨left, right⟩ := inside
  by_cases better : p.y ≤ s.best.y
  · rw [update_of_le better]
    dsimp only
    split
    · rename_i before
      exact ⟨⟨trial.1, before⟩, le_refl _, right.le⟩
    · rename_i after
      have after : s.best.x < p.x := lt_of_le_of_ne (not_lt.mp after) new.symm
      exact ⟨⟨after, trial.2⟩, left.le, le_refl _⟩
  · obtain ⟨first, last, best⟩ := update_of_not_le better
    rw [first, last, best]
    split
    · rename_i before
      exact ⟨⟨before, right⟩, trial.1.le, le_refl _⟩
    · rename_i after
      have after : s.best.x < p.x := lt_of_le_of_ne (not_lt.mp after) new.symm
      exact ⟨⟨left, after⟩, le_refl _, trial.2.le⟩

end Interval

variable [IsStrictOrderedRing K] {config : SearchConfig K} {f : ScalarFunction K} {a b : K}

omit [IsStrictOrderedRing K] in
theorem ends_lt (distinct : a ≠ b) : (ends a b).1 < (ends a b).2 := by
  unfold ends
  split
  · exact ‹_›
  · exact lt_of_le_of_ne (not_lt.mp ‹_›) distinct.symm

omit [IsStrictOrderedRing K] in
theorem uIcc_eq_Icc_ends (a b : K) : Set.uIcc a b = Set.Icc (ends a b).1 (ends a b).2 := by
  unfold ends
  split
  · exact Set.uIcc_of_le (le_of_lt ‹_›)
  · exact Set.uIcc_of_ge (not_lt.mp ‹_›)

theorem entry_mem (distinct : a ≠ b) : entry a b ∈ Set.Ioo (ends a b).1 (ends a b).2 := by
  have golden_pos : 0 < (ExactConstants.golden : K) := ExactConstants.golden_pos
  have golden_lt : (ExactConstants.golden : K) < 1 / 2 := ExactConstants.golden_lt_half
  have wide : 0 < (ends a b).2 - (ends a b).1 := sub_pos.mpr (ends_lt distinct)
  have step_pos := mul_pos golden_pos wide
  have step_lt : ExactConstants.golden * ((ends a b).2 - (ends a b).1) <
      (ends a b).2 - (ends a b).1 := mul_lt_of_lt_one_left wide (by linarith)
  show (ends a b).1 + ExactConstants.golden * ((ends a b).2 - (ends a b).1) ∈ _
  exact ⟨by linarith, by linarith⟩

omit [IsStrictOrderedRing K] in
theorem Opens.ne {p : Sample K} (h : Opens config f a b p) : a ≠ b := fun same =>
  Bool.eq_false_iff.mp h.distinct (beq_exact_iff.mpr same)

/-- The best sample of a search stays strictly inside the interval, and the interval inside the
one that was given. -/
theorem Reaches.inside {k : Nat} {trace : List (SearchEntry K (Event K))}
    {t : Interval K × Counters} (h : Reaches config f a b k trace t) :
    t.1.best.x ∈ Set.Ioo t.1.a t.1.b ∧ Set.Icc t.1.a t.1.b ⊆ Set.uIcc a b := by
  refine Scheme.Reaches.invariant
    (P := fun _ s => s.best.x ∈ Set.Ioo s.a s.b ∧ Set.Icc s.a s.b ⊆ Set.uIcc a b) ?_ ?_ h
  · rintro _ _ ⟨p, opens, rfl, rfl⟩
    rw [uIcc_eq_Icc_ends]
    refine ⟨?_, subset_rfl⟩
    show p.x ∈ Set.Ioo (ends a b).1 (ends a b).2
    rw [opens.first.at_point]
    exact entry_mem opens.ne
  · intro k trace more s p reaches ⟨inside, within⟩ unsettled gives _
    obtain ⟨trial, new⟩ := s.1.target_mem config h.valid unsettled inside
    replace gives : p.x = s.1.target config := gives.at_point
    rw [← gives] at trial new
    obtain ⟨stays, left, right⟩ := s.1.update_inside inside trial new
    exact ⟨stays, (Set.Icc_subset_Icc left right).trans within⟩

/-- What one iteration does to an interval that is not settled. -/
theorem Reaches.trial {k : Nat} {trace : List (SearchEntry K (Event K))}
    {t : Interval K × Counters} (h : Reaches config f a b k trace t)
    (unsettled : ¬ t.1.settled config) :
    t.1.target config ∈ Set.Ioo t.1.a t.1.b ∧ t.1.target config ≠ t.1.best.x :=
  t.1.target_mem config h.valid unsettled h.inside.1

end Nonlinear.Minimum
