import Mathlib
import Nonlinear.Proofs.Root.Containment
import Nonlinear.Proofs.Search.Parabola

/-! # Where interpolated steps lead

An interpolated step is found from ratios of the values and turned so that its numerator is not
negative.  In exact arithmetic it leads to the point where the interpolant is zero.  Between two
points that is the line through both, between three the parabola that gives the point as a function
of the value.  In a search the values are always such that the interpolant exists.
-/

namespace Nonlinear.Root

variable {K : Type} [Field K]

/-- Where the line through two samples meets the axis. -/
theorem mem_line_iff {p q : Sample K} (unequal : p.y ≠ q.y) (x : K) :
    (x, (0 : K)) ∈ line[K, (p.x, p.y), (q.x, q.y)] ↔
      x = q.x - (p.x - q.x) * (q.y / (p.y - q.y)) := by
  have height : p.y - q.y ≠ 0 := sub_ne_zero.mpr unequal
  have point : (x, (0 : K)) = (x - q.x, -q.y) +ᵥ (q.x, q.y) := by
    ext
    · simp
    · simp
  rw [point, vadd_right_mem_affineSpan_pair]
  constructor
  · rintro ⟨t, same⟩
    have along : t * (p.x - q.x) = x - q.x := congrArg Prod.fst same
    have up : t * (p.y - q.y) = -q.y := congrArg Prod.snd same
    rw [eq_div_iff height |>.mpr up] at along
    linear_combination -along
  · rintro rfl
    refine ⟨-(q.y / (p.y - q.y)), ?_⟩
    ext
    · show -(q.y / (p.y - q.y)) * (p.x - q.x) = _
      ring
    · show -(q.y / (p.y - q.y)) * (p.y - q.y) = -q.y
      rw [neg_mul, div_mul_cancel₀ _ height]

variable [LinearOrder K] [ExactConstants K]

namespace Bracket

variable [IsStrictOrderedRing K] (s : Bracket K)

theorem interpolate_kind_exact : s.interpolate.kind =
    if s.previous.x = s.counter.x then .secant else .inverseQuadratic := by
  rw [interpolate_turned]
  split
  · rfl
  · rfl

/-- Turning the numerator turns the denominator, and the step stays the same. -/
theorem interpolate_quotient (nonzero : s.denominator ≠ 0) :
    s.interpolate.q ≠ 0 ∧
      s.interpolate.p / s.interpolate.q = -(s.numerator / s.denominator) := by
  rw [interpolate_turned]
  split
  · exact ⟨neg_ne_zero.mpr nonzero, div_neg _⟩
  · exact ⟨nonzero, neg_div _ _⟩

/-- The secant step leads to where the line through the previous and the best sample meets the
axis. -/
theorem secant_meets_axis (two : s.previous.x = s.counter.x) (nonzero : s.previous.y ≠ 0)
    (unequal : s.previous.y ≠ s.best.y) :
    s.interpolate.kind = .secant ∧ s.interpolate.q ≠ 0 ∧
      ∀ x, (x, (0 : K)) ∈ line[K, (s.previous.x, s.previous.y), (s.best.x, s.best.y)] ↔
        x = s.best.x + s.interpolate.p / s.interpolate.q := by
  have height : s.previous.y - s.best.y ≠ 0 := sub_ne_zero.mpr unequal
  have rest : s.denominator = (s.previous.y - s.best.y) / s.previous.y := by
    rw [denominator, if_pos two, one_sub_div nonzero]
  have length : s.numerator / s.denominator =
      (s.previous.x - s.best.x) * (s.best.y / (s.previous.y - s.best.y)) := by
    rw [numerator, if_pos two, rest, width_exact, two]
    field_simp
  obtain ⟨q_nonzero, step⟩ := s.interpolate_quotient (rest ▸ div_ne_zero height nonzero)
  refine ⟨s.interpolate_kind_exact.trans (if_pos two), q_nonzero, fun x => ?_⟩
  rw [mem_line_iff unequal, step, length, sub_eq_add_neg]

/-- The parabola that gives the point as a function of the value. -/
noncomputable def inverse : Polynomial K :=
  s.previous.mirrored.parabola s.best.mirrored s.counter.mirrored

/-- The step through three samples leads to where the inverse parabola meets the axis. -/
theorem parabola_meets_axis (three : s.previous.x ≠ s.counter.x) (previous : s.previous.y ≠ 0)
    (counter : s.counter.y ≠ 0)
    (apart : Apart s.previous.mirrored s.best.mirrored s.counter.mirrored) :
    s.interpolate.kind = .inverseQuadratic ∧ s.interpolate.q ≠ 0 ∧
      s.inverse.eval 0 = s.best.x + s.interpolate.p / s.interpolate.q := by
  have nonzero : s.denominator ≠ 0 := by
    rw [denominator, if_neg three]
    refine mul_ne_zero (mul_ne_zero ?_ ?_) ?_
    · exact sub_ne_zero.mpr (mt (div_eq_one_iff_eq counter).mp apart.first_third)
    · exact sub_ne_zero.mpr (mt (div_eq_one_iff_eq counter).mp apart.second_third)
    · exact sub_ne_zero.mpr (mt (div_eq_one_iff_eq previous).mp apart.first_second.symm)
  obtain ⟨q_nonzero, step⟩ := s.interpolate_quotient nonzero
  have length : s.numerator = (s.best.x - s.inverse.coeff 0) * s.denominator := by
    obtain ⟨first, second, third⟩ := apart.passes
    simp only [apart.eval_parabola, Sample.mirrored_x, Sample.mirrored_y] at first second third
    rw [numerator, if_neg three, denominator, if_neg three, inverse, width_exact, ← first, ← second,
      ← third]
    field_simp
    ring
  refine ⟨s.interpolate_kind_exact.trans (if_neg three), q_nonzero, ?_⟩
  rw [step, length, mul_div_cancel_right₀ _ nonzero, inverse, apart.eval_parabola]
  ring

/-- Where a proposed step leads: to the middle of the bracket, or to where the interpolant meets the
axis. -/
def Aims : Step × K → Prop
  | (.bisection, m) => m + m = s.width
  | (.secant, m) =>
    (s.best.x + m, (0 : K)) ∈ line[K, (s.previous.x, s.previous.y), (s.best.x, s.best.y)]
  | (.inverseQuadratic, m) => s.inverse.eval 0 = s.best.x + m

end Bracket

variable [IsStrictOrderedRing K]

omit [ExactConstants K] in
theorem ne_of_mul_neg {x y : K} (opposite : x * y < 0) : x ≠ y := by
  rintro rfl
  exact absurd (mul_self_nonneg x) (not_le_of_gt opposite)

omit [ExactConstants K] in
/-- Three samples that separate a zero have different values. -/
theorem Separates.apart {s : Bracket K} (h : Separates s) (nonzero : s.best.y ≠ 0)
    (three : s.previous.x ≠ s.counter.x) (improved : |s.best.y| < |s.previous.y|) :
    s.counter.y ≠ 0 ∧ Apart s.previous.mirrored s.best.mirrored s.counter.mirrored := by
  obtain ⟨-, same⟩ := h.history.resolve_left fun equal => three (congrArg Sample.x equal)
  have opposite : s.best.y * s.counter.y < 0 := h.signs.resolve_left nonzero
  have across : s.previous.y * s.counter.y < 0 := by
    rw [mul_comm] at opposite
    exact mul_neg_of_same_of_opposite (same.resolve_left nonzero) opposite
  exact ⟨right_ne_zero_of_mul opposite.ne,
    fun equal => improved.ne (congrArg abs equal.symm), ne_of_mul_neg across,
    ne_of_mul_neg opposite⟩

/-- Interpolation is only tried where the interpolant exists. -/
theorem Separates.propose_aims {s : Bracket K} (h : Separates s) (nonzero : s.best.y ≠ 0)
    (resolution lastStep : K) (only : Bool) :
    s.Aims (s.propose resolution lastStep only) := by
  have half : s.Aims (.bisection, s.width / (2.0 : K)) := by
    have two : (2.0 : K) = 2 := by norm_num
    rw [two]
    exact add_halves s.width
  unfold Bracket.propose
  split
  · exact half
  · rename_i interpolates
    dsimp only
    split
    · have improved : |s.best.y| < |s.previous.y| := by
        rw [not_or, not_or] at interpolates
        exact not_le.mp interpolates.2.2
      have previous : s.previous.y ≠ 0 := abs_pos.mp ((abs_nonneg _).trans_lt improved)
      by_cases two : s.previous.x = s.counter.x
      · obtain ⟨kind, -, meets⟩ := s.secant_meets_axis two previous
          fun equal => improved.ne (congrArg abs equal.symm)
        rw [kind]
        exact (meets _).mpr rfl
      · obtain ⟨counter, apart⟩ := h.apart nonzero two improved
        obtain ⟨kind, -, meets⟩ := s.parabola_meets_axis two previous counter apart
        rw [kind]
        exact meets
    · exact half

/-- Every step that a search proposes leads to the middle of its bracket or to where the
interpolant meets the axis. -/
theorem Reaches.aims {config : SearchConfig K} {f : ScalarFunction K} {a b : K} {k : Nat}
    {trace : List (SearchEntry K (Event K))} {t : Bracket K × Counters}
    (h : Reaches config f a b k trace t) (unsettled : ¬ t.1.settled config) :
    t.1.keepBest.Aims (t.1.move config) := by
  obtain ⟨-, functionTolerance⟩ := SearchConfig.bounds_of_valid h.valid
  obtain ⟨-, large⟩ := unsettled_iff.mp unsettled
  exact h.separates.1.keepBest.propose_aims (abs_pos.mp (functionTolerance.trans_lt large)) _ _ _

/-- An interpolated step leads to where the interpolant meets the axis, whatever the bracket is: the
line through two samples with different values, or the inverse parabola through three.  Its
numerator is not negative. -/
theorem interpolate_meets_axis (s : Bracket K) :
    (s.previous = s.counter → s.previous.y ≠ 0 → s.previous.y ≠ s.best.y →
      s.interpolate.kind = .secant ∧ s.interpolate.q ≠ 0 ∧
        ∀ x, (x, (0 : K)) ∈ line[K, (s.previous.x, s.previous.y), (s.best.x, s.best.y)] ↔
          x = s.best.x + s.interpolate.p / s.interpolate.q) ∧
    (s.previous.x ≠ s.counter.x → s.previous.y ≠ 0 → s.counter.y ≠ 0 →
      s.previous.y ≠ s.best.y → s.previous.y ≠ s.counter.y → s.best.y ≠ s.counter.y →
      s.interpolate.kind = .inverseQuadratic ∧ s.interpolate.q ≠ 0 ∧
        s.inverse.eval 0 = s.best.x + s.interpolate.p / s.interpolate.q) ∧
    0 ≤ s.interpolate.p := by
  refine ⟨fun two nonzero unequal => ?_, fun three previous counter first second third => ?_, ?_⟩
  · exact s.secant_meets_axis (congrArg Sample.x two) nonzero unequal
  · exact s.parabola_meets_axis three previous counter ⟨first, second, third⟩
  · rw [Bracket.interpolate_exact]
    exact abs_nonneg _

/-- Brackets around the square root of two: the secant from `1` and `2`, and a step through three
samples that falls short of the root by less than a ten-thousandth. -/
theorem interpolate_meets_axis_sqrt_two :
    let s : Bracket ℚ := ⟨⟨2, 2⟩, ⟨1, -1⟩, ⟨2, 2⟩⟩
    let t : Bracket ℚ := ⟨⟨3 / 2, 1 / 4⟩, ⟨71 / 50, 41 / 2500⟩, ⟨1, -1⟩⟩
    ((4 / 3 : ℚ), (0 : ℚ)) ∈ line[ℚ, ((2 : ℚ), (2 : ℚ)), (1, -1)] ∧
      s.best.x + s.interpolate.p / s.interpolate.q = 4 / 3 ∧
      t.inverse.eval 0 = t.best.x + t.interpolate.p / t.interpolate.q ∧
      t.best.x + t.interpolate.p / t.interpolate.q = 62456 / 44165 := by
  intro s t
  have secant : s.best.x + s.interpolate.p / s.interpolate.q = 4 / 3 := by decide +kernel
  obtain ⟨-, -, meets⟩ := (interpolate_meets_axis s).1 rfl (by decide +kernel) (by decide +kernel)
  obtain ⟨-, -, meets'⟩ := (interpolate_meets_axis t).2.1 (by decide +kernel) (by decide +kernel)
    (by decide +kernel) (by decide +kernel) (by decide +kernel) (by decide +kernel)
  exact ⟨(meets _).mpr secant.symm, secant, meets', by decide +kernel⟩

end Nonlinear.Root
