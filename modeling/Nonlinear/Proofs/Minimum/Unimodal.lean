import Nonlinear.Proofs.Minimum.Containment

/-! # Minimum search on a unimodal function

Comparing two values of a function that falls and then rises tells on which side of either
point its minimiser cannot lie.  So no interval of the search loses the minimiser, and a
settled one has it close to the best sample.
-/

namespace Nonlinear.Minimum

variable {K : Type} [LinearOrder K]

/-- The function falls strictly before `m` and rises strictly after it.  Its value at `m` is left
open. -/
structure Unimodal (g : K → K) (m : K) (within : Set K) : Prop where
  falls : StrictAntiOn g (within ∩ Set.Iio m)
  rises : StrictMonoOn g (within ∩ Set.Ioi m)

namespace Unimodal

variable {g : K → K} {m x y : K} {within : Set K}

theorem minimiser_le (h : Unimodal g m within) (hx : x ∈ within) (hy : y ∈ within) (lt : x < y)
    (values : g x ≤ g y) : m ≤ y := by
  by_contra beyond
  have before : y < m := not_le.mp beyond
  exact not_lt_of_ge values (h.falls ⟨hx, lt.trans before⟩ ⟨hy, before⟩ lt)

theorem le_minimiser (h : Unimodal g m within) (hx : x ∈ within) (hy : y ∈ within) (lt : x < y)
    (values : g y ≤ g x) : x ≤ m := by
  by_contra beyond
  have after : m < x := not_le.mp beyond
  exact not_lt_of_ge values (h.rises ⟨hx, after⟩ ⟨hy, after.trans lt⟩ lt)

end Unimodal

/-- The samples are on the graph of a function. -/
structure Interval.OnGraph (g : K → K) (s : Interval K) : Prop where
  best : s.best.y = g s.best.x
  second : s.second.y = g s.second.x
  third : s.third.y = g s.third.x

variable [Field K] [ExactConstants K]

/-- No update loses the minimiser. -/
theorem Interval.update_keeps {g : K → K} {m : K} {within : Set K} {s : Interval K}
    {p : Sample K} (unimodal : Unimodal g m within) (best : s.best.x ∈ within)
    (best_value : s.best.y = g s.best.x) (trial : p.x ∈ within) (trial_value : p.y = g p.x)
    (new : p.x ≠ s.best.x) (inside : m ∈ Set.Icc s.a s.b) :
    m ∈ Set.Icc (s.update p).a (s.update p).b := by
  by_cases better : p.y ≤ s.best.y
  · rw [update_of_le better]
    rw [best_value, trial_value] at better
    dsimp only
    split
    · rename_i before
      exact ⟨inside.1, unimodal.minimiser_le trial best before better⟩
    · rename_i after
      have after : s.best.x < p.x := lt_of_le_of_ne (not_lt.mp after) new.symm
      exact ⟨unimodal.le_minimiser best trial after better, inside.2⟩
  · obtain ⟨first, last, -⟩ := update_of_not_le better
    rw [first, last]
    rw [best_value, trial_value] at better
    have worse : g s.best.x ≤ g p.x := (not_le.mp better).le
    split
    · rename_i before
      exact ⟨unimodal.le_minimiser trial best before worse, inside.2⟩
    · rename_i after
      have after : s.best.x < p.x := lt_of_le_of_ne (not_lt.mp after) new.symm
      exact ⟨inside.1, unimodal.minimiser_le best trial after worse⟩

theorem Interval.OnGraph.update {g : K → K} {s : Interval K} {p : Sample K} (h : s.OnGraph g)
    (trial : p.y = g p.x) : (s.update p).OnGraph g := by
  by_cases better : p.y ≤ s.best.y
  · rw [update_of_le better]
    exact ⟨trial, h.best, h.second⟩
  · obtain ⟨-, -, best⟩ := update_of_not_le better
    constructor
    case best =>
      rw [best]
      exact h.best
    case second =>
      rcases update_others better with ⟨-, second, -⟩ | ⟨-, second, -⟩
      · rw [second]
        exact trial
      · rw [second]
        exact h.second
    case third =>
      rcases update_others better with ⟨-, -, third⟩ | ⟨-, -, third | third⟩
      · rw [third]
        exact h.second
      · rw [third]
        exact trial
      · rw [third]
        exact h.third

variable [IsStrictOrderedRing K] {config : SearchConfig K} {f : ScalarFunction K} {a b : K}

/-- Where the function has a value for each point, a trial is a point with its value. -/
theorem Reaches.trial_value {g : K → K}
    (agrees : ∀ k, ∀ x ∈ Set.uIcc a b, ∀ y, f k x = .ok y → y = g x) {k : Nat}
    {trace : List (SearchEntry K (Event K))} {s : Interval K × Counters} {p : Sample K}
    (h : Reaches config f a b k trace s) (unsettled : ¬ s.1.settled config)
    (gives : f.Gives (s.2.functionEvaluations + 1) (s.1.target config) p) :
    p.x ∈ Set.uIcc a b ∧ p.x ≠ s.1.best.x ∧ p.y = g p.x := by
  obtain ⟨trial, new⟩ := h.trial unsettled
  have within := h.inside.2 (Set.Ioo_subset_Icc_self trial)
  have value := agrees _ _ within _ gives.answer
  rw [← gives.at_point] at within new value
  exact ⟨within, new, value⟩

/-- Where the function has a value for each point, all samples of a search are on its graph. -/
theorem Reaches.onGraph {g : K → K}
    (agrees : ∀ k, ∀ x ∈ Set.uIcc a b, ∀ y, f k x = .ok y → y = g x) {k : Nat}
    {trace : List (SearchEntry K (Event K))} {t : Interval K × Counters}
    (h : Reaches config f a b k trace t) : t.1.OnGraph g := by
  refine Scheme.Reaches.invariant (P := fun _ s => s.OnGraph g) ?_ ?_ h
  · rintro _ _ ⟨p, opens, rfl, rfl⟩
    have start : entry a b ∈ Set.uIcc a b := by
      rw [uIcc_eq_Icc_ends]
      exact Set.Ioo_subset_Icc_self (entry_mem opens.ne)
    have value : p.y = g p.x := by
      rw [opens.first.at_point]
      exact agrees 1 _ start _ opens.first.answer
    exact ⟨value, value, value⟩
  · intro k trace more s p reaches graph unsettled gives _
    exact graph.update (Reaches.trial_value agrees reaches unsettled gives).2.2

theorem Reaches.best_value {g : K → K}
    (agrees : ∀ k, ∀ x ∈ Set.uIcc a b, ∀ y, f k x = .ok y → y = g x) {k : Nat}
    {trace : List (SearchEntry K (Event K))} {t : Interval K × Counters}
    (h : Reaches config f a b k trace t) :
    t.1.best.x ∈ Set.uIcc a b ∧ t.1.best.y = g t.1.best.x :=
  ⟨h.inside.2 (Set.Ioo_subset_Icc_self h.inside.1), (h.onGraph agrees).best⟩

theorem Reaches.keeps {g : K → K} {m : K} (unimodal : Unimodal g m (Set.uIcc a b))
    (inside : m ∈ Set.uIcc a b)
    (agrees : ∀ k, ∀ x ∈ Set.uIcc a b, ∀ y, f k x = .ok y → y = g x) {k : Nat}
    {trace : List (SearchEntry K (Event K))} {t : Interval K × Counters}
    (h : Reaches config f a b k trace t) :
    t.1.best.y = g t.1.best.x ∧ m ∈ Set.Icc t.1.a t.1.b := by
  refine ⟨(h.best_value agrees).2, ?_⟩
  refine Scheme.Reaches.invariant (P := fun _ s => m ∈ Set.Icc s.a s.b) ?_ ?_ h
  · rintro _ _ ⟨p, opens, rfl, rfl⟩
    rw [uIcc_eq_Icc_ends] at inside
    exact inside
  · intro k trace more s p reaches kept unsettled gives _
    obtain ⟨best, best_value⟩ := Reaches.best_value agrees reaches
    obtain ⟨trial, new, trial_value⟩ :=
      Reaches.trial_value agrees reaches unsettled gives
    exact Interval.update_keeps unimodal best best_value trial trial_value new kept

/-- In exact arithmetic a minimum search of a unimodal function answers a point close to the
minimiser, and the intervals that it goes on from never lose the minimiser. -/
theorem search_unimodal {g : K → K} {m : K} (unimodal : Unimodal g m (Set.uIcc a b))
    (inside : m ∈ Set.uIcc a b)
    (agrees : ∀ k, ∀ x ∈ Set.uIcc a b, ∀ y, f k x = .ok y → y = g x) :
    (∀ r, (search config f a b).outcome = .ok r → r.value = g r.x ∧
      |r.x - m| ≤ 2 * (ExactConstants.sqrtEpsilon * |r.x| + config.tolerance / 3)) ∧
    ∀ k s, HoldsAfter config f a b k s →
      ContinuesFrom config f a b k s ∧ m ∈ Set.Icc s.a s.b := by
  constructor
  · intro r ok
    obtain ⟨p, opens⟩ := opens_of_ok ok
    obtain ⟨k, trace, t, reaches, settled, x, value⟩ :=
      Scheme.reaches_of_ok opens.search_eq opens.starts ok
    obtain ⟨best_value, kept⟩ := Reaches.keeps unimodal inside agrees reaches
    rw [x, value]
    refine ⟨best_value, ?_⟩
    show |t.1.best.x - m| ≤ 2 * (ExactConstants.sqrtEpsilon * |t.1.best.x| + config.tolerance / 3)
    rw [← t.1.accuracy_exact config]
    exact t.1.near_of_settled config settled kept
  · intro k s holds
    refine ⟨((search_passes config f a b k).1 s holds).1, ?_⟩
    obtain ⟨trace, t, reaches, rfl⟩ := holds
    exact (Reaches.keeps unimodal inside agrees reaches).2

/-- The search for the minimum of the square from `-1` to `2`. -/
theorem search_unimodal_square :
    (search ⟨1 / 10, 0, 20, false⟩ (fun _ (x : ℚ) => .ok (x * x)) (-1) 2).outcome =
      .ok ⟨0, 0, ⟨5, 6, 0⟩⟩ ∧
    |(0 : ℚ) - 0| ≤ 2 * (ExactConstants.sqrtEpsilon * |(0 : ℚ)| + 1 / 10 / 3) ∧
    ∀ k s, HoldsAfter ⟨1 / 10, 0, 20, false⟩ (fun _ (x : ℚ) => .ok (x * x)) (-1) 2 k s →
      ContinuesFrom ⟨1 / 10, 0, 20, false⟩ (fun _ (x : ℚ) => .ok (x * x)) (-1) 2 k s ∧
        0 ∈ Set.Icc s.a s.b := by
  have unimodal : Unimodal (fun x : ℚ => x * x) 0 (Set.uIcc (-1) 2) := by
    constructor
    · intro x ⟨_, hx⟩ y ⟨_, hy⟩ lt
      replace hx : x < 0 := hx
      replace hy : y < 0 := hy
      show y * y < x * x
      nlinarith
    · intro x ⟨_, hx⟩ y _ lt
      exact mul_self_lt_mul_self (le_of_lt hx) lt
  have inside : (0 : ℚ) ∈ Set.uIcc (-1) 2 := Set.mem_uIcc.mpr (.inl (by norm_num))
  have agrees : ∀ k : Nat, ∀ x ∈ Set.uIcc (-1 : ℚ) 2, ∀ y,
      (fun _ (x : ℚ) => .ok (x * x) : ScalarFunction ℚ) k x = .ok y → y = x * x := by
    intro k x _ y same
    cases same
    rfl
  have ok : (search ⟨1 / 10, 0, 20, false⟩ (fun _ (x : ℚ) => .ok (x * x)) (-1) 2).outcome =
      .ok ⟨0, 0, ⟨5, 6, 0⟩⟩ := Run.ok_of_toOption (by decide +kernel)
  exact ⟨ok, ((search_unimodal unimodal inside agrees).1 _ ok).2,
    (search_unimodal unimodal inside agrees).2⟩

end Nonlinear.Minimum
