import Nonlinear.Proofs.Minimum.Containment

/-! # The intervals of a minimum search

In exact arithmetic every trial is strictly inside the interval and away from the best sample.  The
worse one of the two becomes an end, so each interval lies strictly inside the one before, and
the best sample is the only one that is left in it.
-/

namespace Nonlinear.Minimum

open SearchEntry

variable {K : Type} [Field K] [LinearOrder K] [ExactConstants K]

namespace Interval

variable {s : Interval K} {p : Sample K} {points : List K}

/-- After an update the worse one of the trial and the best sample is an end. -/
theorem update_end (s : Interval K) (p : Sample K) :
    ((s.update p).best = p ∧ ((s.update p).a = s.best.x ∨ (s.update p).b = s.best.x)) ∨
      ((s.update p).best = s.best ∧ ((s.update p).a = p.x ∨ (s.update p).b = p.x)) := by
  by_cases better : p.y ≤ s.best.y
  · left
    rw [update_of_le better]
    by_cases before : p.x < s.best.x
    · exact ⟨rfl, .inr (if_pos before)⟩
    · exact ⟨rfl, .inl (if_neg before)⟩
  · right
    obtain ⟨left, right, best⟩ := update_of_not_le better
    by_cases before : p.x < s.best.x
    · exact ⟨best, .inl (left.trans (if_pos before))⟩
    · exact ⟨best, .inr (right.trans (if_neg before))⟩

/-- The ends do not stay where they are both. -/
theorem update_ssubset (inside : s.best.x ∈ Set.Ioo s.a s.b) (trial : p.x ∈ Set.Ioo s.a s.b)
    (new : p.x ≠ s.best.x) : Set.Icc (s.update p).a (s.update p).b ⊂ Set.Icc s.a s.b := by
  obtain ⟨-, left, right⟩ := s.update_inside inside trial new
  have proper : s.a < (s.update p).a ∨ (s.update p).b < s.b := by
    have moved {x : K} (mem : x ∈ Set.Ioo s.a s.b)
        (cut : (s.update p).a = x ∨ (s.update p).b = x) :
        s.a < (s.update p).a ∨ (s.update p).b < s.b :=
      cut.imp (fun eq => mem.1.trans_eq eq.symm) (fun eq => eq.trans_lt mem.2)
    rcases s.update_end p with ⟨-, cut⟩ | ⟨-, cut⟩
    · exact moved inside cut
    · exact moved trial cut
  have wide : s.a ≤ s.b := (inside.1.trans inside.2).le
  rcases proper with above | below
  · exact Set.Icc_ssubset_Icc_left wide above right
  · exact Set.Icc_ssubset_Icc_right wide left below

/-- No point but that of the best sample is inside. -/
def Excludes (s : Interval K) (points : List K) : Prop :=
  ∀ x ∈ points, x ≠ s.best.x → x ∉ Set.Ioo s.a s.b

theorem Excludes.update (h : s.Excludes points) (inside : s.best.x ∈ Set.Ioo s.a s.b)
    (trial : p.x ∈ Set.Ioo s.a s.b) (new : p.x ≠ s.best.x) :
    (s.update p).Excludes (points ++ [p.x]) := by
  obtain ⟨-, left, right⟩ := s.update_inside inside trial new
  have within : Set.Ioo (s.update p).a (s.update p).b ⊆ Set.Ioo s.a s.b :=
    Set.Ioo_subset_Ioo left right
  have at_end {x : K} (cut : (s.update p).a = x ∨ (s.update p).b = x) :
      x ∉ Set.Ioo (s.update p).a (s.update p).b := by
    rcases cut with rfl | rfl
    · exact Set.left_notMem_Ioo
    · exact Set.right_notMem_Ioo
  intro x asked other
  rw [List.mem_append, List.mem_singleton] at asked
  rcases s.update_end p with ⟨best, cut⟩ | ⟨best, cut⟩ <;> rw [best] at other
  · have earlier : x ∈ points := asked.resolve_right other
    by_cases same : x = s.best.x
    · rw [same]
      exact at_end cut
    · exact fun mem => h x earlier same (within mem)
  · rcases asked with earlier | rfl
    · exact fun mem => h x earlier other (within mem)
    · exact at_end cut

end Interval

variable [IsStrictOrderedRing K] {config : SearchConfig K} {f : ScalarFunction K} {a b : K}

theorem Reaches.excludes {k : Nat} {trace : List (SearchEntry K (Event K))}
    {t : Interval K × Counters} (h : Reaches config f a b k trace t) :
    t.1.Excludes (arguments trace) := by
  refine Scheme.Reaches.history (P := fun _ trace s => s.Excludes (arguments trace)) ?_ ?_ h
  · rintro _ _ ⟨p, opens, rfl, rfl⟩ x asked other
    have first : x = entry a b := List.mem_singleton.mp asked
    exact absurd (first.trans opens.first.at_point.symm) other
  · intro k trace s p event reaches excludes unsettled gives
    have at_target : p.x = s.1.target config := gives.at_point
    obtain ⟨trial, new⟩ := Reaches.trial reaches unsettled
    rw [← at_target] at trial new
    rw [arguments_append]
    exact excludes.update (Reaches.inside reaches).1 trial new

theorem Reaches.subset_ends {k : Nat} {trace : List (SearchEntry K (Event K))}
    {t : Interval K × Counters} (h : Reaches config f a b k trace t) :
    Set.Ioo t.1.a t.1.b ⊆ Set.Ioo (ends a b).1 (ends a b).2 := by
  obtain ⟨inside, within⟩ := h.inside
  rw [uIcc_eq_Icc_ends, Set.Icc_subset_Icc_iff (inside.1.trans inside.2).le] at within
  exact Set.Ioo_subset_Ioo within.1 within.2

theorem Reaches.succ_ssubset {k : Nat} {trace trace' : List (SearchEntry K (Event K))}
    {s t : Interval K × Counters} (h : Reaches config f a b k trace s)
    (h' : Reaches config f a b (k + 1) trace' t) :
    Set.Icc t.1.a t.1.b ⊂ Set.Icc s.1.a s.1.b := by
  obtain ⟨_, u, p, earlier, unsettled, gives, rfl⟩ := Scheme.Reaches.succ h'
  obtain rfl : s = u := h.unique earlier
  have at_target : p.x = s.1.target config := gives.at_point
  obtain ⟨trial, new⟩ := h.trial unsettled
  rw [← at_target] at trial new
  exact s.1.update_ssubset h.inside.1 trial new

omit [IsStrictOrderedRing K] in
theorem uIoo_eq_Ioo_ends (a b : K) :
    Set.uIoo a b = Set.Ioo (ends a b).1 (ends a b).2 := by
  unfold ends
  split
  · exact Set.uIoo_of_lt ‹_›
  · exact Set.uIoo_of_ge (not_lt.mp ‹_›)

/-- All that a search asks for is strictly between its ends. -/
theorem argument_mem (distinct : a ≠ b) {x : K}
    (asked : x ∈ arguments (search config f a b).trace) : x ∈ Set.uIoo a b := by
  rw [uIoo_eq_Ioo_ends]
  obtain ⟨-, -, -, rfl | ⟨k, trace, t, reaches, unsettled, rfl⟩⟩ := target_of_argument asked
  · exact entry_mem distinct
  · exact reaches.subset_ends (reaches.trial unsettled).1

/-- In exact arithmetic a search has its best sample strictly inside each of its intervals.  It
asks for its entry first and then only for points strictly inside its intervals and away from the
best sample, never for an end.  Each interval is strictly inside the one before, and of the points
that were asked for only that of the best sample is inside. -/
theorem search_encloses (config : SearchConfig K) (f : ScalarFunction K) (distinct : a ≠ b)
    (valid : config.validate = .ok ()) :
    (∀ k s, HoldsAfter config f a b k s → s.a < s.best.x ∧ s.best.x < s.b) ∧
    ((arguments (search config f a b).trace)[0]? = some (entry a b) ∧
      entry a b ∈ Set.uIoo a b) ∧
    (∀ k x, (arguments (search config f a b).trace)[k + 1]? = some x →
      ∃ s, HoldsAfter config f a b k s ∧ x ∈ Set.Ioo s.a s.b ∧ x ≠ s.best.x) ∧
    (a ∉ arguments (search config f a b).trace ∧ b ∉ arguments (search config f a b).trace) ∧
    (∀ k s t, HoldsAfter config f a b k s → HoldsAfter config f a b (k + 1) t →
      Set.Icc t.a t.b ⊂ Set.Icc s.a s.b) ∧
    ∀ k s, HoldsAfter config f a b k s →
      ∀ x ∈ (arguments (search config f a b).trace).take (k + 1), x ≠ s.best.x →
        x ∉ Set.Ioo s.a s.b := by
  have first := first_argument (f := f) rfl rfl (beq_exact_false distinct) valid
  refine ⟨?_, ⟨first, argument_mem distinct (List.mem_of_getElem? first)⟩, ?_, ?_, ?_, ?_⟩
  · rintro k s ⟨trace, t, reaches, rfl⟩
    exact reaches.inside.1
  · intro k x asked
    obtain ⟨s, holds, -, unsettled, rfl⟩ := (search_passes config f a b k).2 x |>.mp asked
    obtain ⟨trace, t, reaches, rfl⟩ := holds
    exact ⟨_, ⟨trace, t, reaches, rfl⟩, Reaches.trial reaches unsettled⟩
  · exact ⟨fun asked => Set.left_notMem_uIoo (argument_mem distinct asked),
      fun asked => Set.right_notMem_uIoo (argument_mem distinct asked)⟩
  · rintro k _ _ ⟨trace, s, reaches, rfl⟩ ⟨trace', t, reaches', rfl⟩
    exact reaches.succ_ssubset reaches'
  · rintro k _ ⟨trace, t, reaches, rfl⟩
    rw [← reaches.arguments_eq]
    exact reaches.excludes

/-- The search for the minimum of the square from `-1` to `2` finds it with its third step, a
parabolic one.  The fourth is lengthened, and stays inside. -/
theorem search_encloses_square :
    let course := search ⟨1 / 10, 0, 20, false⟩ (fun _ (x : ℚ) => .ok (x * x)) (-1) 2
    ((arguments course.trace).drop 3).take 2 = [0, -1 / 30] ∧
      (∃ s, HoldsAfter ⟨1 / 10, 0, 20, false⟩ (fun _ (x : ℚ) => .ok (x * x)) (-1) 2 3 s ∧
        -1 / 30 ∈ Set.Ioo s.a s.b ∧ -1 / 30 ≠ s.best.x) ∧
      -1 ∉ arguments course.trace ∧ 2 ∉ arguments course.trace := by
  intro course
  have fourth : (arguments course.trace)[3 + 1]? = some (-1 / 30 : ℚ) := by decide +kernel
  obtain ⟨-, -, trial, ends, -, -⟩ := search_encloses ⟨1 / 10, 0, 20, false⟩
    (fun _ (x : ℚ) => .ok (x * x)) (a := -1) (b := 2) (by decide +kernel) (by decide +kernel)
  exact ⟨by decide +kernel, trial 3 _ fourth, ends⟩

end Nonlinear.Minimum
