import Nonlinear.Proofs.Minimum.Unimodal

/-! # The ends of a minimum search

The ends of the interval that is given are never asked for, so their values enter a search only
through those of its samples.  Where the function falls and then rises, whatever lies beyond an
end that has moved is no better than the best sample.  An end that has not moved may be better if
it is within the resolution of the answer, and is so where the minimiser is that end.
-/

namespace Nonlinear.Minimum

section Order

variable {K : Type} [LinearOrder K]

/-- The function falls strictly up to `m` and rises strictly after it. -/
structure Valley (g : K → K) (m : K) (within : Set K) : Prop where
  falls : StrictAntiOn g (within ∩ Set.Iic m)
  rises : StrictMonoOn g (within ∩ Set.Ioi m)

namespace Valley

variable {g : K → K} {m x y z : K} {within : Set K}

theorem lt_of_mem_uIoo (h : Valley g m within) (hx : x ∈ within) (hy : y ∈ within)
    (between : x ∈ Set.uIoo y m) : g x < g y := by
  rcases lt_or_ge y m with below | above
  · rw [Set.uIoo_of_lt below] at between
    exact h.falls ⟨hy, below.le⟩ ⟨hx, between.2.le⟩ between.1
  · rw [Set.uIoo_of_ge above] at between
    exact h.rises ⟨hx, between.1⟩ ⟨hy, between.1.trans between.2⟩ between.2

/-- Once it has not fallen, it rises. -/
theorem lt_right (h : Valley g m within) (hx : x ∈ within) (hy : y ∈ within) (hz : z ∈ within)
    (lt : x < y) (lt' : y < z) (values : g x ≤ g y) : g y < g z := by
  have beyond : m < y := by
    by_contra before
    have before : y ≤ m := not_lt.mp before
    exact not_lt_of_ge values (h.falls ⟨hx, lt.le.trans before⟩ ⟨hy, before⟩ lt)
  exact h.rises ⟨hy, beyond⟩ ⟨hz, beyond.trans lt'⟩ lt'

/-- Where it is not yet rising, it was falling all the way. -/
theorem lt_left (h : Valley g m within) (hx : x ∈ within) (hy : y ∈ within) (hz : z ∈ within)
    (lt : z < y) (lt' : y < x) (values : g x ≤ g y) : g y < g z := by
  have before : y ≤ m := by
    by_contra beyond
    have beyond : m < y := not_le.mp beyond
    exact not_lt_of_ge values (h.rises ⟨hy, beyond⟩ ⟨hx, beyond.trans lt'⟩ lt')
  exact h.falls ⟨hz, lt.le.trans before⟩ ⟨hy, before⟩ lt

end Valley

end Order

variable {K : Type} [Field K] [LinearOrder K] [ExactConstants K]

namespace Interval

/-- No point outside of the interval is better than the best sample. -/
def Leads (s : Interval K) (g : K → K) (within : Set K) : Prop :=
  ∀ y ∈ within, y ∉ Set.Icc s.a s.b → s.best.y ≤ g y

/-- What an update cuts off is no better than what it keeps. -/
theorem Leads.update {s : Interval K} {p : Sample K} {g : K → K} {m : K} {within : Set K}
    (h : s.Leads g within) (valley : Valley g m within) (best : s.best.x ∈ within)
    (best_value : s.best.y = g s.best.x) (trial : p.x ∈ within) (trial_value : p.y = g p.x)
    (new : p.x ≠ s.best.x) : (s.update p).Leads g within := by
  intro y mem outside
  by_cases better : p.y ≤ s.best.y
  · rw [update_of_le better] at outside ⊢
    dsimp only at outside ⊢
    by_cases far : y ∈ Set.Icc s.a s.b
    · refine better.trans ?_
      rw [best_value, trial_value] at better
      rw [best_value]
      split at outside
      · rename_i before
        have beyond : s.best.x < y := not_le.mp fun le => outside ⟨far.1, le⟩
        exact (valley.lt_right trial best mem before beyond better).le
      · rename_i notBefore
        have after : s.best.x < p.x := lt_of_le_of_ne (not_lt.mp notBefore) new.symm
        have beyond : y < s.best.x := not_le.mp fun le => outside ⟨le, far.2⟩
        exact (valley.lt_left trial best mem beyond after better).le
    · exact better.trans (h y mem far)
  · obtain ⟨left, right, kept⟩ := update_of_not_le better
    rw [left, right] at outside
    rw [kept]
    by_cases far : y ∈ Set.Icc s.a s.b
    · rw [best_value, trial_value] at better
      have worse : g s.best.x ≤ g p.x := (not_le.mp better).le
      rw [best_value]
      refine worse.trans ?_
      split at outside
      · rename_i before
        have beyond : y < p.x := not_le.mp fun le => outside ⟨le, far.2⟩
        exact (valley.lt_left best trial mem beyond before worse).le
      · rename_i notBefore
        have after : s.best.x < p.x := lt_of_le_of_ne (not_lt.mp notBefore) new.symm
        have beyond : p.x < y := not_le.mp fun le => outside ⟨far.1, le⟩
        exact (valley.lt_right best trial mem after beyond worse).le
    · exact h y mem far

end Interval

variable [IsStrictOrderedRing K] {config : SearchConfig K} {f : ScalarFunction K} {a b : K}

omit [ExactConstants K] in
/-- A point that is nearer to an end than the minimiser is better than that end. -/
theorem Valley.le_end {g : K → K} {m x : K} (h : Valley g m (Set.uIcc a b))
    (hx : x ∈ Set.uIcc a b) (hm : m ∈ Set.uIcc a b) (nearer : |x - a| < |m - a|) : g x ≤ g a := by
  rcases eq_or_ne x a with rfl | other
  · exact le_refl _
  refine (h.lt_of_mem_uIoo hx Set.left_mem_uIcc ?_).le
  rcases le_total a b with le | le
  · rw [Set.uIcc_of_le le] at hx hm
    rw [abs_of_nonneg (sub_nonneg.mpr hx.1), abs_of_nonneg (sub_nonneg.mpr hm.1)] at nearer
    rw [Set.uIoo_of_le hm.1]
    exact ⟨lt_of_le_of_ne hx.1 other.symm, by linarith⟩
  · rw [Set.uIcc_of_ge le] at hx hm
    rw [abs_of_nonpos (sub_nonpos.mpr hx.2), abs_of_nonpos (sub_nonpos.mpr hm.2)] at nearer
    rw [Set.uIoo_of_ge hm.2]
    exact ⟨by linarith, lt_of_le_of_ne hx.2 other⟩

theorem Reaches.leads {g : K → K} {m : K} (valley : Valley g m (Set.uIcc a b))
    (agrees : ∀ k, ∀ x ∈ Set.uIcc a b, ∀ y, f k x = .ok y → y = g x) {k : Nat}
    {trace : List (SearchEntry K (Event K))} {t : Interval K × Counters}
    (h : Reaches config f a b k trace t) : t.1.Leads g (Set.uIcc a b) := by
  refine Scheme.Reaches.invariant (P := fun _ s => s.Leads g (Set.uIcc a b)) ?_ ?_ h
  · rintro _ _ ⟨p, opens, rfl, rfl⟩ y mem outside
    rw [uIcc_eq_Icc_ends] at mem
    exact absurd mem outside
  · intro k trace more s p reaches leads unsettled gives _
    obtain ⟨best, best_value⟩ := Reaches.best_value agrees reaches
    obtain ⟨trial, new, trial_value⟩ :=
      Reaches.trial_value agrees reaches unsettled gives
    exact leads.update valley best best_value trial trial_value new

/-- In exact arithmetic no point beyond the resolution of a minimum has a smaller value, if the
function falls up to some point and rises after it.  The ends are not below the minimum either, so
long as that point is not within the resolution of them. -/
theorem search_below_ends {g : K → K} {m : K} (valley : Valley g m (Set.uIcc a b))
    (inside : m ∈ Set.uIcc a b)
    (agrees : ∀ k, ∀ x ∈ Set.uIcc a b, ∀ y, f k x = .ok y → y = g x) {r : Solution K}
    (ok : (search config f a b).outcome = .ok r) :
    let near := 2 * (ExactConstants.sqrtEpsilon * |r.x| + config.tolerance / 3)
    (∀ y ∈ Set.uIcc a b, near < |r.x - y| → r.value ≤ g y) ∧
      (near < |m - a| → r.value ≤ g a) ∧ (near < |m - b| → r.value ≤ g b) := by
  intro near
  obtain ⟨p, opens⟩ := opens_of_ok ok
  obtain ⟨k, trace, t, reaches, settled, x, value⟩ :=
    Scheme.reaches_of_ok opens.search_eq opens.starts ok
  obtain ⟨answer_in, answer_value⟩ := Reaches.best_value agrees reaches
  change r.x = t.1.best.x at x
  change r.value = t.1.best.y at value
  rw [← x] at answer_in
  rw [← x, ← value] at answer_value
  have resolution : 2 * t.1.accuracy config = near := by rw [t.1.accuracy_exact, ← x]
  have far (y : K) (mem : y ∈ Set.uIcc a b) (away : near < |r.x - y|) : r.value ≤ g y := by
    rw [value]
    refine Reaches.leads valley agrees reaches y mem fun inner => ?_
    have close := t.1.near_of_settled config settled inner
    rw [← x, resolution] at close
    exact absurd away (not_lt_of_ge close)
  have at_end {c d : K} (same : Set.uIcc c d = Set.uIcc a b) (away : near < |m - c|) :
      r.value ≤ g c := by
    rw [← same] at valley inside answer_in far
    by_cases close : |r.x - c| ≤ near
    · rw [answer_value]
      exact valley.le_end answer_in inside (close.trans_lt away)
    · exact far c Set.left_mem_uIcc (not_le.mp close)
  exact ⟨far, at_end rfl, at_end (Set.uIcc_comm b a)⟩

/-- The search for the minimum of the square from `-1` to `2`. -/
theorem search_below_ends_square :
    (search ⟨1 / 10, 0, 20, false⟩ (fun _ (x : ℚ) => .ok (x * x)) (-1) 2).outcome =
      .ok ⟨0, 0, ⟨5, 6, 0⟩⟩ ∧ (0 : ℚ) ≤ -1 * -1 ∧ (0 : ℚ) ≤ 2 * 2 := by
  have valley : Valley (fun x : ℚ => x * x) 0 (Set.uIcc (-1) 2) := by
    constructor
    · intro x _ y ⟨_, hy⟩ lt
      replace hy : y ≤ 0 := hy
      show y * y < x * x
      nlinarith
    · intro x ⟨_, hx⟩ y _ lt
      exact mul_self_lt_mul_self (le_of_lt hx) lt
  have inside : (0 : ℚ) ∈ Set.uIcc (-1) 2 := Set.mem_uIcc.mpr (.inl (by norm_num))
  have agrees : ∀ k : Nat, ∀ x ∈ Set.uIcc (-1 : ℚ) 2, ∀ y,
      (fun _ (x : ℚ) => .ok (x * x) : ScalarFunction ℚ) k x = .ok y → y = x * x := by
    intro k x _ y same
    cases same
    rfl
  have ok : (search ⟨1 / 10, 0, 20, false⟩ (fun _ (x : ℚ) => .ok (x * x)) (-1) 2).outcome =
      .ok ⟨0, 0, ⟨5, 6, 0⟩⟩ := Run.ok_of_toOption (by decide +kernel)
  have near : 2 * ((ExactConstants.sqrtEpsilon : ℚ) * |0| + 1 / 10 / 3) < 1 := by norm_num
  obtain ⟨-, left, right⟩ := search_below_ends valley inside agrees ok
  exact ⟨ok, left (near.trans_le (by norm_num)), right (near.trans_le (by norm_num))⟩

/-- The minimum of a rising function is at an end, and never found: the value there is below the
one that is answered. -/
theorem lt_minimum_of_rising {g : K → K} (less : a < b) (rising : StrictMonoOn g (Set.uIcc a b))
    (agrees : ∀ k, ∀ x ∈ Set.uIcc a b, ∀ y, f k x = .ok y → y = g x) {r : Solution K}
    (ok : (search config f a b).outcome = .ok r) : g a < r.value := by
  obtain ⟨p, opens⟩ := opens_of_ok ok
  obtain ⟨k, trace, t, reaches, -, -, value⟩ :=
    Scheme.reaches_of_ok opens.search_eq opens.starts ok
  obtain ⟨answer_in, answer_value⟩ := Reaches.best_value agrees reaches
  obtain ⟨inside, within⟩ := Reaches.inside reaches
  have above : a < t.1.best.x := by
    rw [Set.uIcc_of_le less.le] at within
    exact (within ⟨le_refl _, (inside.1.trans inside.2).le⟩).1.trans_lt inside.1
  rw [value]
  show g a < t.1.best.y
  rw [answer_value]
  exact rising Set.left_mem_uIcc answer_in above

/-- The identity from zero to one, in rational numbers and in doubles with the fast
configuration. -/
theorem identity_below_minimum :
    Valley (fun x : ℚ => x) 0 (Set.uIcc 0 1) ∧
      (∃ r, (search ⟨1 / 10, 0, 20, false⟩ (fun _ (x : ℚ) => .ok x) 0 1).outcome = .ok r ∧
        ¬ r.value ≤ 0) ∧
      ∃ r, (search .fast (fun _ (x : Float) => .ok x) 0.0 1.0).outcome = .ok r ∧
        ¬ r.value ≤ 0.0 := by
  refine ⟨⟨?_, fun x _ y _ lt => lt⟩, ?_, ?_⟩
  · -- only zero itself is not above zero
    intro x ⟨hx, _⟩ y ⟨_, hy⟩ lt
    rw [Set.uIcc_of_le zero_le_one] at hx
    exact absurd (hx.1.trans_lt lt) (not_lt_of_ge hy)
  · cases found : (search ⟨1 / 10, 0, 20, false⟩ (fun _ (x : ℚ) => .ok x) 0 1).outcome with
    | error e =>
        have ends : (search ⟨1 / 10, 0, 20, false⟩ (fun _ (x : ℚ) => .ok x) 0 1).outcome.isOk =
            true := by decide +kernel
        rw [found] at ends
        cases ends
    | ok r =>
        refine ⟨r, rfl, not_le_of_gt (lt_minimum_of_rising (g := fun x => x) zero_lt_one
          (fun x _ y _ lt => lt) (fun k x _ y same => ?_) found)⟩
        cases same
        rfl
  · have above : ((search .fast (fun _ (x : Float) => .ok x) 0.0 1.0).outcome.toOption.any
        fun r => ¬ r.value ≤ 0.0) = true := by decide +kernel
    obtain ⟨r, found, above⟩ := (Option.any_eq_true _ _).mp above
    exact ⟨r, Run.ok_of_toOption found, of_decide_eq_true above⟩

end Nonlinear.Minimum
