import Mathlib
import Nonlinear.Proofs.Minimum.Shrinking

/-! # The golden section

A search that takes golden-section steps only keeps its best sample where it divides the interval in
the golden section, on either side.  The side is not remembered: it is found again from the middle
of the interval.  So every step that is not lengthened leads to the mirror image of the best sample
and leaves the same fraction of the interval, whichever of its two parts the values of the function
take off.
-/

namespace Nonlinear.Minimum

variable {K : Type} [Field K] [LinearOrder K] [ExactConstants K]

namespace Interval

variable {s : Interval K} {p : Sample K} {into other : K} {config : SearchConfig K}

/-- The step of an iteration is taken as it was proposed. -/
def Strides (config : SearchConfig K) (s : Interval K) : Prop :=
  s.accuracy config ≤ |(s.move config).2|

/-- The best sample cuts off the golden section of the interval. -/
def Divided (s : Interval K) : Prop := s.room = ExactConstants.golden * s.width

variable [IsStrictOrderedRing K]

theorem golden_mul_le {x : K} (nonneg : 0 ≤ x) :
    ExactConstants.golden * x ≤ x - ExactConstants.golden * x := by
  linarith [double_golden_le nonneg]

theorem Divided.position (h : s.Divided) :
    s.best.x = s.a + ExactConstants.golden * (s.b - s.a) ∨
      s.best.x = s.b - ExactConstants.golden * (s.b - s.a) := by
  change min (s.best.x - s.a) (s.b - s.best.x) = ExactConstants.golden * (s.b - s.a) at h
  rcases min_choice (s.best.x - s.a) (s.b - s.best.x) with left | right
  · rw [left] at h
    exact .inl (by linarith)
  · rw [right] at h
    exact .inr (by linarith)

theorem divided_around {lo hi : K} (ordered : lo ≤ hi)
    (at_entry : p.x = lo + ExactConstants.golden * (hi - lo)) : (around lo hi p).Divided := by
  show min (p.x - lo) (hi - p.x) = ExactConstants.golden * (hi - lo)
  have left : p.x - lo = ExactConstants.golden * (hi - lo) := by rw [at_entry, add_sub_cancel_left]
  have right : hi - p.x = hi - lo - ExactConstants.golden * (hi - lo) := by rw [at_entry]; ring
  rw [left, right]
  exact min_eq_left (golden_mul_le (sub_nonneg.mpr ordered))

/-- A golden-section step into the longer part leaves an interval that is divided alike. -/
theorem Divided.update (h : s.Divided)
    (section_eq : (ExactConstants.golden : K) ^ 2 = 3 * ExactConstants.golden - 1)
    (enters : s.Enters p.x into other (ExactConstants.golden * into)) (longer : other ≤ into)
    (nonneg : 0 ≤ into) :
    (s.update p).width = (1 - ExactConstants.golden) * s.width ∧ (s.update p).Divided := by
  obtain ⟨width, room⟩ := enters.parts
  have cut : other = ExactConstants.golden * s.width := by
    rw [← h, room, min_eq_right longer]
  have rest : into = (1 - ExactConstants.golden) * s.width := by
    rw [sub_mul, one_mul, ← cut, width, add_sub_cancel_right]
  have near := golden_mul_le nonneg
  unfold Divided
  rcases enters.update with ⟨width', room'⟩ | ⟨width', room'⟩ <;> rw [width', room']
  · exact ⟨rest, min_eq_left near⟩
  · -- here the equation of the golden section makes up for the part that was not entered
    have left : other + ExactConstants.golden * into = into := by
      rw [rest, cut]
      linear_combination -s.width * section_eq
    rw [left]
    exact ⟨rest, min_eq_left (by linarith)⟩

theorem Divided.step (h : s.Divided)
    (section_eq : (ExactConstants.golden : K) ^ 2 = 3 * ExactConstants.golden - 1)
    (valid : config.validate = .ok ()) (only : config.bisectionOnly = true)
    (unsettled : ¬ s.settled config) (inside : s.best.x ∈ Set.Ioo s.a s.b)
    (strides : s.Strides config) (at_target : p.x = s.target config) :
    (s.update p).width = (1 - ExactConstants.golden) * s.width ∧ (s.update p).Divided := by
  have golden : (s.move config).2 = s.goldenStep := by rw [move_of_goldenOnly only]
  obtain ⟨into, other, longer, wide, size, enters⟩ :=
    s.golden_enters valid unsettled inside golden
  have resolution := s.accuracy_pos config valid
  rw [max_eq_left strides, size, ← at_target] at enters
  exact h.update section_eq enters longer (by linarith)

omit [IsStrictOrderedRing K] in
theorem far_mem (inside : s.best.x ∈ Set.Ioo s.a s.b) : s.far ∈ Set.Icc s.a s.b := by
  have wide : s.a ≤ s.b := (inside.1.trans inside.2).le
  unfold far
  split
  · exact ⟨wide, le_rfl⟩
  · exact ⟨le_rfl, wide⟩

theorem abs_move_of_goldenOnly (only : config.bisectionOnly = true) :
    |(s.move config).2| = ExactConstants.golden * |s.far - s.best.x| := by
  have golden_pos : 0 < (ExactConstants.golden : K) := ExactConstants.golden_pos
  rw [move_of_goldenOnly only, goldenStep_exact, abs_mul, abs_of_pos golden_pos]

/-- A step that is not lengthened starts from an interval that is not settled. -/
theorem unsettled_of_strides (valid : config.validate = .ok ())
    (only : config.bisectionOnly = true) (inside : s.best.x ∈ Set.Ioo s.a s.b)
    (strides : s.Strides config) : ¬ s.settled config := by
  intro settled
  have golden_pos : 0 < (ExactConstants.golden : K) := ExactConstants.golden_pos
  have golden_lt : (ExactConstants.golden : K) < 1 / 2 := ExactConstants.golden_lt_half
  have near := s.near_of_settled config settled (far_mem inside)
  rw [abs_sub_comm] at near
  have resolution := s.accuracy_pos config valid
  have short : s.accuracy config < s.accuracy config := by
    calc s.accuracy config ≤ ExactConstants.golden * |s.far - s.best.x| :=
          (abs_move_of_goldenOnly only).symm ▸ strides
      _ ≤ ExactConstants.golden * (2 * s.accuracy config) :=
          mul_le_mul_of_nonneg_left near golden_pos.le
      _ < 1 / 2 * (2 * s.accuracy config) :=
          mul_lt_mul_of_pos_right golden_lt (by linarith)
      _ = s.accuracy config := by ring
  exact lt_irrefl _ short

theorem Divided.abs_move (h : s.Divided) (only : config.bisectionOnly = true)
    (inside : s.best.x ∈ Set.Ioo s.a s.b) :
    |(s.move config).2| =
      ExactConstants.golden * ((1 - ExactConstants.golden) * s.width) := by
  have parts : s.room + max (s.best.x - s.a) (s.b - s.best.x) = s.width := by
    rw [room, min_add_max]
    unfold width
    ring
  have longer : |s.far - s.best.x| = (1 - ExactConstants.golden) * s.width := by
    rw [abs_far inside, eq_sub_of_add_eq' parts, h]
    ring
  rw [abs_move_of_goldenOnly only, longer]

/-- From the golden section on one side a step leads to that on the other. -/
theorem Divided.target_eq (h : s.Divided)
    (section_eq : (ExactConstants.golden : K) ^ 2 = 3 * ExactConstants.golden - 1)
    (only : config.bisectionOnly = true) (strides : s.Strides config) :
    s.target config = s.a + s.b - s.best.x := by
  have step : s.target config = s.best.x + ExactConstants.golden * (s.far - s.best.x) := by
    rw [target, lengthen_of_long strides, move_of_goldenOnly only, goldenStep_exact]
  change min (s.best.x - s.a) (s.b - s.best.x) = ExactConstants.golden * (s.b - s.a) at h
  rw [step, far, midpoint_exact]
  split
  · rw [min_eq_left (by linarith)] at h
    linear_combination (2 - ExactConstants.golden) * h - (s.b - s.a) * section_eq
  · rw [min_eq_right (by linarith)] at h
    linear_combination (ExactConstants.golden - 2) * h + (s.b - s.a) * section_eq

end Interval

variable [IsStrictOrderedRing K] {config : SearchConfig K} {f : ScalarFunction K} {a b : K}

/-- By induction on the iterations, none of which lengthens its step. -/
theorem Reaches.divided
    (section_eq : (ExactConstants.golden : K) ^ 2 = 3 * ExactConstants.golden - 1)
    (only : config.bisectionOnly = true) {k : Nat} {trace : List (SearchEntry K (Event K))}
    {t : Interval K × Counters} (h : Reaches config f a b k trace t)
    (strides : ∀ j < k, ∀ s, HoldsAfter config f a b j s → s.Strides config) :
    t.1.width = (1 - ExactConstants.golden) ^ k * |b - a| ∧ t.1.Divided := by
  induction k generalizing trace t with
  | zero =>
      refine ⟨by rw [h.begins, ends_width, pow_zero, one_mul], ?_⟩
      obtain ⟨_, _, _, ⟨p, opens, -, rfl⟩, -, leads, -⟩ := h
      cases leads with
      | here => exact Interval.divided_around (ends_lt opens.ne).le opens.first.at_point
  | succ k ih =>
      obtain ⟨_, s, p, before, unsettled, gives, rfl⟩ := Scheme.Reaches.succ h
      obtain ⟨width, divided⟩ := ih before fun j lt => strides j (Nat.lt_succ_of_lt lt)
      obtain ⟨narrower, again⟩ := divided.step section_eq h.valid only unsettled
        (Reaches.inside before).1 (strides k (Nat.lt_succ_self k) _ ⟨_, s, before, rfl⟩)
        gives.at_point
      exact ⟨narrower.trans (by rw [width, pow_succ', mul_assoc]), again⟩

/-- No step is lengthened before the interval has become as narrow as that. -/
theorem strides_of_scale
    (section_eq : (ExactConstants.golden : K) ^ 2 = 3 * ExactConstants.golden - 1)
    (only : config.bisectionOnly = true) {k : Nat}
    (scale : ExactConstants.sqrtEpsilon * max |a| |b| + config.tolerance / 3 ≤
      ExactConstants.golden * ((1 - ExactConstants.golden) ^ k * |b - a|)) :
    ∀ j < k, ∀ s, HoldsAfter config f a b j s → s.Strides config := by
  have golden_pos : 0 < (ExactConstants.golden : K) := ExactConstants.golden_pos
  have golden_lt : (ExactConstants.golden : K) < 1 / 2 := ExactConstants.golden_lt_half
  have constant : 0 ≤ (ExactConstants.sqrtEpsilon : K) := ExactConstants.sqrtEpsilon_nonneg
  intro j
  induction j using Nat.strong_induction_on with
  | _ j ih =>
      rintro lt _ ⟨trace, t, reaches, rfl⟩
      obtain ⟨width, divided⟩ := reaches.divided section_eq only
        fun i before => ih i before (before.trans lt)
      obtain ⟨inside, within⟩ := reaches.inside
      have size : |t.1.best.x| ≤ max |a| |b| := by
        rcases Set.mem_uIcc.mp (within (Set.Ioo_subset_Icc_self inside)) with
          ⟨left, right⟩ | ⟨left, right⟩
        · exact abs_le_max_abs_abs left right
        · rw [max_comm]
          exact abs_le_max_abs_abs left right
      have wider : (1 - ExactConstants.golden : K) ^ k ≤ (1 - ExactConstants.golden) ^ (j + 1) :=
        pow_le_pow_of_le_one (by linarith) (by linarith) lt
      show t.1.accuracy config ≤ |(t.1.move config).2|
      calc t.1.accuracy config
          ≤ ExactConstants.sqrtEpsilon * max |a| |b| + config.tolerance / 3 := by
            rw [Interval.accuracy_exact]
            exact add_le_add_left (mul_le_mul_of_nonneg_left size constant) _
        _ ≤ ExactConstants.golden * ((1 - ExactConstants.golden) ^ k * |b - a|) := scale
        _ ≤ ExactConstants.golden * ((1 - ExactConstants.golden) ^ (j + 1) * |b - a|) :=
            mul_le_mul_of_nonneg_left
              (mul_le_mul_of_nonneg_right wider (abs_nonneg _)) golden_pos.le
        _ = |(t.1.move config).2| := by
            rw [divided.abs_move only inside, width, pow_succ', mul_assoc]

/-- Let the golden section be what its name says: less than one half, it is the root `(3 - √5) / 2`
of this equation.  Then golden-section steps that are not lengthened shrink the interval that the
search goes on from by the same factor each, and the best sample always divides it in the golden
section, whatever the values of the function are.  Each of these steps asks for the mirror image of
the best sample, and with such steps a search only ends with its budget. -/
theorem search_divides
    (section_eq : (ExactConstants.golden : K) ^ 2 = 3 * ExactConstants.golden - 1)
    (distinct : a ≠ b) (valid : config.validate = .ok ()) (only : config.bisectionOnly = true)
    (total : ∀ k x, ∃ y, f k x = .ok y) (k : Nat)
    (strides : ∀ j < k, ∀ s, HoldsAfter config f a b j s → s.Strides config) :
    (∀ s, HoldsAfter config f a b k s → ContinuesFrom config f a b k s ∧
      s.b - s.a = (1 - ExactConstants.golden) ^ k * |b - a| ∧
        (s.best.x = s.a + ExactConstants.golden * (s.b - s.a) ∨
          s.best.x = s.b - ExactConstants.golden * (s.b - s.a))) ∧
    (∀ j < k, j < config.maxIterations → ∀ s, HoldsAfter config f a b j s →
      (SearchEntry.arguments (search config f a b).trace)[j + 1]? = some (s.a + s.b - s.best.x)) ∧
    (k ≤ config.maxIterations → ∃ s, HoldsAfter config f a b k s) := by
  refine ⟨?_, ?_, ?_⟩
  · intro s holds
    refine ⟨((search_passes config f a b k).1 s holds).1, ?_⟩
    obtain ⟨trace, t, reaches, rfl⟩ := holds
    obtain ⟨width, divided⟩ := Reaches.divided section_eq only reaches strides
    exact ⟨width, divided.position⟩
  · intro j lt more s holds
    have stride := strides j lt s holds
    obtain ⟨-, asks⟩ := search_passes config f a b j
    obtain ⟨trace, t, reaches, rfl⟩ := holds
    have unsettled := Interval.unsettled_of_strides valid only reaches.inside.1 stride
    obtain ⟨-, divided⟩ := Reaches.divided section_eq only reaches
      fun i before => strides i (before.trans lt)
    rw [← divided.target_eq section_eq only stride]
    exact (asks _).mpr ⟨t.1, ⟨trace, t, reaches, rfl⟩, more, unsettled, rfl⟩
  · intro budget
    obtain ⟨p, opens⟩ := opens_of_total distinct valid total
    have unsettled (j : Nat) (lt : j < k) (trace) (t : Interval K × Counters)
        (reaches : Reaches config f a b j trace t) : ¬ t.1.settled config :=
      Interval.unsettled_of_strides valid only reaches.inside.1
        (strides j lt _ ⟨trace, t, reaches, rfl⟩)
    obtain ⟨trace, t, reaches⟩ := Scheme.reaches_of_unsettled opens.starts
      (ScalarFunction.gives_of_total total) budget unsettled
    exact ⟨t.1, trace, t, reaches, rfl⟩

/-- Two real steps for the identity, between ends that come in descending order.  The first one asks
for the mirror image of the entry. -/
theorem search_divides_identity :
    let config : SearchConfig ℝ := ⟨1 / 10, 0, 2, true⟩
    let f : ScalarFunction ℝ := fun _ x => .ok x
    (∀ j < 2, ∀ s, HoldsAfter config f 1 0 j s → s.Strides config) ∧
      (SearchEntry.arguments (search config f 1 0).trace)[1]? = some (1 - (3 - √5) / 2) ∧
      ∃ s, HoldsAfter config f 1 0 2 s ∧ ContinuesFrom config f 1 0 2 s ∧
        s.b - s.a = (1 - (3 - √5) / 2) ^ 2 ∧
        (s.best.x = s.a + (3 - √5) / 2 * (s.b - s.a) ∨
          s.best.x = s.b - (3 - √5) / 2 * (s.b - s.a)) := by
  intro config f
  have valid : config.validate = .ok () := by
    rw [SearchConfig.validate_ok_iff, literal_zero]
    exact ⟨⟨by norm_num [config], rfl⟩, ⟨le_refl 0, rfl⟩, two_ne_zero⟩
  have scale : ExactConstants.sqrtEpsilon * max |(1 : ℝ)| |0| + config.tolerance / 3 ≤
      ExactConstants.golden * ((1 - ExactConstants.golden) ^ 2 * |(0 : ℝ) - 1|) := by
    obtain ⟨above, below⟩ := golden_bounds
    have square : (617 / 1000 : ℝ) ^ 2 ≤ (1 - ExactConstants.golden) ^ 2 :=
      pow_le_pow_left₀ (by norm_num) (by linarith) 2
    have product := mul_le_mul above.le square (by norm_num) (by linarith)
    show (1 / 67108864 : ℝ) * max |1| |0| + 1 / 10 / 3 ≤ _
    norm_num at product ⊢
    linarith
  have strides := strides_of_scale (f := f) golden_sq rfl scale
  obtain ⟨law, mirrors, goes_on⟩ :=
    search_divides golden_sq one_ne_zero valid rfl (fun _ x => ⟨x, rfl⟩) 2 strides
  have opens : Opens config f 1 0 ⟨entry 1 0, entry 1 0⟩ :=
    ⟨rfl, rfl, beq_exact_false one_ne_zero, valid, rfl, rfl, rfl⟩
  have start : HoldsAfter config f 1 0 0 _ := ⟨_, _, opens.reaches, rfl⟩
  have image : (ends (1 : ℝ) 0).1 + (ends (1 : ℝ) 0).2 - entry 1 0 = 1 - (3 - √5) / 2 := by
    rw [entry, ends, if_neg (not_lt_of_gt one_pos)]
    show (0 : ℝ) + 1 - (0 + ExactConstants.golden * (1 - 0)) = _
    rw [golden_eq]
    ring
  have second := mirrors 0 two_pos two_pos _ start
  change _ = some ((ends (1 : ℝ) 0).1 + (ends (1 : ℝ) 0).2 - entry 1 0) at second
  rw [image] at second
  obtain ⟨s, holds⟩ := goes_on le_rfl
  have divides := law s holds
  rw [golden_eq, zero_sub, abs_neg, abs_one, mul_one] at divides
  exact ⟨strides, second, s, holds, divides⟩

end Nonlinear.Minimum
