import Mathlib
import Nonlinear.Proofs.Root.Course
import Nonlinear.Proofs.Search.Exact

/-! # Containment of the root search in exact arithmetic

Without rounding every step of a root search ends strictly inside the bracket.  For an
interpolated step this rests on where the previous estimate lies: either it is the
counterpoint, or the best estimate is between the two and has a value of the same sign.
-/

namespace Nonlinear.Root

open Scalar

variable {K : Type} [Field K] [LinearOrder K]

section Between

variable [IsStrictOrderedRing K] {b c x : K}

theorem mul_neg_of_same_of_opposite (same : 0 < x * c) (opposite : b * c < 0) : x * b < 0 := by
  refine neg_of_mul_neg_left ?_ (sq_nonneg c)
  calc x * b * c ^ 2 = x * c * (b * c) := by ring
    _ < 0 := mul_neg_of_pos_of_neg same opposite

theorem mul_pos_of_opposite (first : x * c < 0) (second : b * c < 0) : 0 < b * x := by
  refine pos_of_mul_pos_left ?_ (sq_nonneg c)
  calc 0 < x * c * (b * c) := mul_pos_of_neg_of_neg first second
    _ = b * x * c ^ 2 := by ring

theorem uIcc_ssubset (inside : x ∈ Set.uIoo b c) : Set.uIcc x c ⊂ Set.uIcc b c := by
  have within : x ∈ Set.uIcc b c := Set.uIoo_subset_uIcc_self inside
  refine ⟨Set.uIcc_subset_uIcc_right within, fun back => ?_⟩
  have left : b ∈ Set.uIcc x c := back Set.left_mem_uIcc
  rw [mem_uIoo_iff, mul_pos_iff, sub_pos, sub_pos, sub_neg, sub_neg] at inside
  rw [Set.mem_uIcc] at left
  rcases inside with ⟨after, before⟩ | ⟨after, before⟩ <;>
    rcases left with ⟨first, second⟩ | ⟨first, second⟩ <;> linarith

end Between

variable [ExactConstants K]

namespace Bracket

variable (s : Bracket K)

/-- The interval of the bracket. -/
def interval : Set K := Set.uIcc s.best.x s.counter.x

/-- The length of an interpolated step, times its denominator and up to sign. -/
def numerator : K :=
  if s.previous.x = s.counter.x then s.width * (s.best.y / s.previous.y)
  else
    s.best.y / s.previous.y *
      (s.width * (s.previous.y / s.counter.y) *
          (s.previous.y / s.counter.y - s.best.y / s.counter.y) -
        (s.best.x - s.previous.x) * (s.best.y / s.counter.y - 1))

/-- What the numerator of an interpolated step is divided by, up to sign. -/
def denominator : K :=
  if s.previous.x = s.counter.x then 1 - s.best.y / s.previous.y
  else
    (s.previous.y / s.counter.y - 1) * (s.best.y / s.counter.y - 1) *
      (s.best.y / s.previous.y - 1)

theorem width_exact : s.width = s.counter.x - s.best.x := rfl

theorem keepBest_exact :
    s.keepBest = if |s.counter.y| < |s.best.y| then ⟨s.best, s.counter, s.best⟩ else s := rfl

theorem interval_keepBest : s.keepBest.interval = s.interval := by
  rw [keepBest_exact]
  split
  · exact Set.uIcc_comm _ _
  · rfl

variable [IsStrictOrderedRing K]

theorem resolution_exact (t : K) :
    s.resolution t = 2 * ExactConstants.epsilon * |s.best.x| + t / 2 := by
  show (2.0 : K) * ExactConstants.epsilon * |s.best.x| + t / (2.0 : K) = _
  norm_num

theorem resolution_pos {t : K} (ht : 0 < t) : 0 < s.resolution t := by
  have he : 0 ≤ (ExactConstants.epsilon : K) := ExactConstants.epsilon_nonneg
  rw [resolution_exact]
  positivity

theorem converged_exact (r t : K) :
    s.converged r t ↔ |s.width| / 2 ≤ r ∨ |s.best.y| ≤ t := by
  show |s.width / (2.0 : K)| ≤ r ∨ |s.best.y| ≤ t ↔ _
  norm_num [abs_div]

theorem accepts_exact (step : Quotient K) (r l : K) :
    s.accepts step r l ↔
      step.p < 3 / 4 * s.width * step.q - |r * step.q| / 2 ∧ step.p < |l * step.q / 2| := by
  show step.p < (0.75 : K) * s.width * step.q - |r * step.q| / (2.0 : K) ∧
    step.p < |l * step.q / (2.0 : K)| ↔ _
  norm_num

/-- The sign of the numerator decides how the quotient is written. -/
theorem interpolate_turned : s.interpolate =
    if 0 < s.numerator then
      ⟨if s.previous.x = s.counter.x then .secant else .inverseQuadratic,
        s.numerator, -s.denominator⟩
    else
      ⟨if s.previous.x = s.counter.x then .secant else .inverseQuadratic,
        -s.numerator, s.denominator⟩ := by
  unfold interpolate numerator denominator
  rw [literal_zero, literal_one]
  by_cases two : s.previous.x = s.counter.x
  · simp only [if_pos two, if_pos (beq_exact_iff.mpr two)]
  · simp only [if_neg two, if_neg (mt beq_exact_iff.mp two)]

theorem interpolate_exact : s.interpolate.p = |s.numerator| := by
  rw [interpolate_turned]
  split
  · exact (abs_of_pos ‹_›).symm
  · exact (abs_of_nonpos (not_lt.mp ‹_›)).symm

theorem advance_exact (p : Sample K) : s.advance p =
    ⟨s.best, p, if 0 < p.y * s.counter.y then s.best else s.counter⟩ := by
  rw [advance, literal_zero]
  congr 1
  exact if_congr mul_pos_iff.symm rfl rfl

end Bracket

/-- Unless the best value is a zero, the sign changes between best estimate and counterpoint,
and the best estimate comes from the far side of the previous one. -/
structure Separates (s : Bracket K) : Prop where
  signs : s.best.y = 0 ∨ s.best.y * s.counter.y < 0
  history : s.previous = s.counter ∨
    s.best.x ∈ Set.uIoo s.previous.x s.counter.x ∧ (s.best.y = 0 ∨ 0 < s.previous.y * s.best.y)

namespace Separates

variable [IsStrictOrderedRing K] {s : Bracket K}

theorem keepBest (h : Separates s) : Separates s.keepBest := by
  rw [Bracket.keepBest_exact]
  split
  · rename_i smaller
    refine ⟨.inr ?_, .inl rfl⟩
    rcases h.signs with zero | opposite
    · rw [zero, abs_zero] at smaller
      exact absurd smaller (not_lt_of_ge (abs_nonneg _))
    · rwa [mul_comm]
  · exact h

theorem numerator_ne_zero (h : Separates s) (nonzero : s.best.y ≠ 0) (wide : s.width ≠ 0)
    (improved : |s.best.y| < |s.previous.y|) : s.numerator ≠ 0 := by
  have previous_nonzero : s.previous.y ≠ 0 := abs_pos.mp ((abs_nonneg _).trans_lt improved)
  unfold Bracket.numerator
  split
  · exact mul_ne_zero wide (div_ne_zero nonzero previous_nonzero)
  · rename_i three
    have opposite : s.best.y * s.counter.y < 0 := h.signs.resolve_left nonzero
    obtain ⟨between, same⟩ := h.history.resolve_left fun same => three (congrArg Sample.x same)
    replace same : 0 < s.previous.y * s.best.y := same.resolve_left nonzero
    rw [mem_uIoo_iff, ← Bracket.width_exact] at between
    have counter_nonzero : s.counter.y ≠ 0 := right_ne_zero_of_mul opposite.ne
    set u := s.previous.y / s.counter.y
    set r := s.best.y / s.counter.y
    have r_neg : r < 0 := div_neg_iff.mpr (mul_neg_iff.mp opposite)
    have u_neg : u < 0 := by
      rw [mul_comm] at opposite
      exact div_neg_iff.mpr (mul_neg_iff.mp (mul_neg_of_same_of_opposite same opposite))
    have further : u < r := by
      have apart : |r| < |u| := by
        rw [abs_div, abs_div]
        exact div_lt_div_of_pos_right improved (abs_pos.mpr counter_nonzero)
      rwa [abs_of_neg r_neg, abs_of_neg u_neg, neg_lt_neg_iff] at apart
    -- both terms of the sum have the direction of the bracket
    have toward : 0 < (s.width * u * (u - r) - (s.best.x - s.previous.x) * (r - 1)) * s.width := by
      have first : 0 < s.width ^ 2 * (u * (u - r)) :=
        mul_pos (by positivity) (mul_pos_of_neg_of_neg u_neg (sub_neg.mpr further))
      have second : 0 < (s.best.x - s.previous.x) * s.width * (1 - r) :=
        mul_pos between (by linarith)
      calc (0 : K) < _ := add_pos first second
        _ = _ := by ring
    exact mul_ne_zero (div_ne_zero nonzero previous_nonzero) (left_ne_zero_of_mul toward.ne')

end Separates

section Step

variable [IsStrictOrderedRing K] {s : Bracket K} {r : K}

/-- An interpolated step that is accepted goes some of the way to the counterpoint. -/
theorem accepted_toward {p q l : K} {kind : Step} (pos : 0 < p)
    (h : s.accepts ⟨kind, p, q⟩ r l) : 0 < p / q * s.width ∧ |p / q| < |s.width| := by
  obtain ⟨inner, -⟩ := (s.accepts_exact _ _ _).mp h
  have along : 0 < s.width * q := by
    have := abs_nonneg (r * q)
    dsimp only at inner
    linarith
  have q_nonzero : q ≠ 0 := right_ne_zero_of_mul along.ne'
  constructor
  · have square : 0 < q ^ 2 := by positivity
    calc 0 < p * (s.width * q) / q ^ 2 := div_pos (mul_pos pos along) square
      _ = p / q * s.width := by field_simp
  · rw [abs_div, abs_of_pos pos, div_lt_iff₀ (abs_pos.mpr q_nonzero), ← abs_mul,
      abs_of_pos along]
    have := abs_nonneg (r * q)
    dsimp only at inner
    linarith

theorem propose_toward (h : Separates s) (nonzero : s.best.y ≠ 0) (wide : s.width ≠ 0) (l : K)
    (only : Bool) :
    0 < (s.propose r l only).2 * s.width ∧ |(s.propose r l only).2| < |s.width| := by
  have half : 0 < s.width / (2.0 : K) * s.width ∧ |s.width / (2.0 : K)| < |s.width| := by
    have two : (2.0 : K) = 2 := by norm_num
    rw [two, abs_div, abs_two, div_mul_eq_mul_div]
    exact ⟨half_pos (mul_self_pos.mpr wide), half_lt_self (abs_pos.mpr wide)⟩
  unfold Bracket.propose
  split
  · exact half
  · rename_i interpolates
    dsimp only
    split
    · refine accepted_toward ?_ ‹_›
      rw [Bracket.interpolate_exact, abs_pos]
      refine h.numerator_ne_zero nonzero wide ?_
      rw [not_or, not_or] at interpolates
      exact not_le.mp interpolates.2.2
    · exact half

end Step

variable [IsStrictOrderedRing K] {config : SearchConfig K} {f : ScalarFunction K} {a b : K}

theorem unsettled_iff {s : Bracket K} :
    ¬ s.settled config ↔
      s.keepBest.resolution config.tolerance < |s.keepBest.width| / 2 ∧
        config.functionTolerance < |s.keepBest.best.y| := by
  rw [Bracket.settled, Bracket.converged_exact, not_or, not_le, not_le]

/-- Every point asked for lies strictly inside the bracket. -/
theorem Separates.target_mem {s : Bracket K} (h : Separates s) (valid : config.validate = .ok ())
    (unsettled : ¬ s.settled config) :
    s.target config ∈ Set.uIoo s.keepBest.best.x s.keepBest.counter.x := by
  obtain ⟨tolerance, functionTolerance⟩ := SearchConfig.bounds_of_valid valid
  obtain ⟨wide, large⟩ := unsettled_iff.mp unsettled
  have resolution := s.keepBest.resolution_pos tolerance
  have nonzero : s.keepBest.best.y ≠ 0 := abs_pos.mp (functionTolerance.trans_lt large)
  have width_pos : 0 < |s.keepBest.width| := by linarith
  obtain ⟨toward, short⟩ := propose_toward h.keepBest nonzero (abs_pos.mp width_pos)
    (s.best.x - s.previous.x) config.bisectionOnly
  exact add_lengthen_mem_uIoo resolution toward short (wide.trans (half_lt_self width_pos))

theorem Separates.advance {s : Bracket K} {p : Sample K} (h : Separates s)
    (nonzero : s.best.y ≠ 0) (inside : p.x ∈ Set.uIoo s.best.x s.counter.x) :
    Separates (s.advance p) := by
  have opposite : s.best.y * s.counter.y < 0 := h.signs.resolve_left nonzero
  rw [Bracket.advance_exact]
  split
  · rename_i same
    exact ⟨.inr (mul_neg_of_same_of_opposite same opposite), .inl rfl⟩
  · rename_i differ
    by_cases zero : p.y = 0
    · exact ⟨.inl zero, .inr ⟨inside, .inl zero⟩⟩
    · have counter_nonzero : s.counter.y ≠ 0 := right_ne_zero_of_mul opposite.ne
      have across : p.y * s.counter.y < 0 :=
        lt_of_le_of_ne (not_lt.mp differ) (mul_ne_zero zero counter_nonzero)
      exact ⟨.inr across, .inr ⟨inside, .inr (mul_pos_of_opposite across opposite)⟩⟩

theorem interval_advance {s : Bracket K} {p : Sample K}
    (inside : p.x ∈ Set.uIoo s.best.x s.counter.x) : (s.advance p).interval ⊂ s.interval := by
  rw [Bracket.advance_exact, Bracket.interval, Bracket.interval]
  split
  · rw [Set.uIoo_comm] at inside
    rw [Set.uIcc_comm s.best.x]
    exact uIcc_ssubset inside
  · exact uIcc_ssubset inside

theorem Opens.separates {p q : Sample K} (h : Opens config f a b p q) :
    Separates (.between p q) := by
  obtain ⟨-, functionTolerance⟩ := SearchConfig.bounds_of_valid h.valid
  rw [← literal_zero] at functionTolerance
  have opposed : Opposed p.y q.y :=
    opposed_of_isNegative functionTolerance rfl rfl h.far_left h.far_right h.signs
  rw [Opposed, literal_zero] at opposed
  refine ⟨.inr ?_, .inl rfl⟩
  rw [mul_comm]
  exact mul_neg_iff.mpr opposed.symm

/-- What one iteration does to a bracket that is not settled. -/
theorem Separates.step {s : Bracket K} {p : Sample K} (h : Separates s)
    (valid : config.validate = .ok ()) (unsettled : ¬ s.settled config)
    (at_target : p.x = s.target config) :
    Separates (s.keepBest.advance p) ∧ (s.keepBest.advance p).interval ⊂ s.interval := by
  obtain ⟨-, large⟩ := unsettled_iff.mp unsettled
  obtain ⟨-, functionTolerance⟩ := SearchConfig.bounds_of_valid valid
  have inside : p.x ∈ Set.uIoo s.keepBest.best.x s.keepBest.counter.x := by
    rw [at_target]
    exact h.target_mem valid unsettled
  constructor
  · exact h.keepBest.advance (abs_pos.mp (functionTolerance.trans_lt large)) inside
  · rw [← s.interval_keepBest]
    exact interval_advance inside

theorem Reaches.separates {k : Nat} {trace : List (SearchEntry K (Event K))}
    {t : Bracket K × Counters} (h : Reaches config f a b k trace t) :
    Separates t.1 ∧ t.1.interval ⊆ Set.uIcc a b := by
  refine Scheme.Reaches.invariant (P := fun _ s => Separates s ∧ s.interval ⊆ Set.uIcc a b)
    ?_ ?_ h
  · rintro _ _ ⟨p, q, opens, rfl, rfl⟩
    refine ⟨opens.separates, ?_⟩
    show Set.uIcc q.x p.x ⊆ _
    rw [opens.left.at_point, opens.right.at_point, Set.uIcc_comm]
  · intro k trace more s p _ holds unsettled gives _
    obtain ⟨separates, shrinks⟩ := holds.1.step h.valid unsettled gives.at_point
    exact ⟨separates, shrinks.subset.trans holds.2⟩

theorem opens_of_opposite {fa fb : K} (valid : config.validate = .ok ()) (left : f 1 a = .ok fa)
    (right : f 2 b = .ok fb) (large_left : config.functionTolerance < |fa|)
    (large_right : config.functionTolerance < |fb|) (opposite : fa * fb < 0) :
    Opens config f a b ⟨a, fa⟩ ⟨b, fb⟩ where
  finite_left := rfl
  finite_right := rfl
  valid := valid
  left := ⟨rfl, left, rfl⟩
  right := ⟨rfl, right, rfl⟩
  far_left := not_le_of_gt large_left
  far_right := not_le_of_gt large_right
  signs := by
    show (decide (fa < 0) == decide (fb < 0)) = false
    rcases mul_neg_iff.mp opposite with ⟨pos, neg⟩ | ⟨neg, pos⟩
    · simp [neg, not_lt_of_gt pos]
    · simp [neg, not_lt_of_gt pos]

/-- In exact arithmetic a search asks only for points strictly inside its brackets, each of the
brackets that it goes on from is strictly inside the one before, and a root it answers is between
the ends. -/
theorem search_contained {fa fb : K} (valid : config.validate = .ok ()) (left : f 1 a = .ok fa)
    (right : f 2 b = .ok fb) (large_left : config.functionTolerance < |fa|)
    (large_right : config.functionTolerance < |fb|) (opposite : fa * fb < 0) :
    (∀ k x, (SearchEntry.arguments (search config f a b).trace)[k + 2]? = some x →
      ∃ s, HoldsAfter config f a b k s ∧ x ∈ Set.uIoo s.best.x s.counter.x) ∧
    (∀ k s, HoldsAfter config f a b k s → ContinuesFrom config f a b k s ∧
      ∀ t, HoldsAfter config f a b (k + 1) t → t.interval ⊂ s.interval) ∧
    ∀ r, (search config f a b).outcome = .ok r → r.x ∈ Set.uIcc a b := by
  have opens := opens_of_opposite valid left right large_left large_right opposite
  refine ⟨?_, ?_, ?_⟩
  · intro k x asked
    obtain ⟨trace, t, reaches, -, unsettled, rfl⟩ := (search_passes config f a b k).2 x |>.mp asked
    exact ⟨_, ⟨trace, t, reaches, rfl⟩, (Reaches.separates reaches).1.target_mem valid unsettled⟩
  · intro k s holds
    refine ⟨((search_passes config f a b k).1 s holds).1, ?_⟩
    obtain ⟨trace, u, reaches, same⟩ := holds
    rintro t ⟨trace', v, reaches', same'⟩
    obtain ⟨earlier, w, p, before, unsettled, gives, eq⟩ := Scheme.Reaches.succ reaches'
    obtain rfl : u = w := reaches.unique before
    obtain ⟨-, shrinks⟩ := reaches.separates.1.step valid unsettled gives.at_point
    rw [same, same', eq, Bracket.interval_keepBest, Bracket.interval_keepBest]
    exact shrinks
  · intro r ok
    obtain ⟨k, trace, t, reaches, -, x, -⟩ :=
      Scheme.reaches_of_ok opens.search_eq opens.starts ok
    rw [x]
    refine (Reaches.separates reaches).2 ?_
    rw [← t.1.interval_keepBest]
    exact Set.left_mem_uIcc

/-- The search for the square root of two from `1` to `2`, with its first secant. -/
theorem search_contained_sqrt_two :
    (∃ s, HoldsAfter ⟨1 / 10, 0, 10, false⟩ (fun _ (x : ℚ) => .ok (x * x - 2)) 1 2 0 s ∧
      ContinuesFrom ⟨1 / 10, 0, 10, false⟩ (fun _ (x : ℚ) => .ok (x * x - 2)) 1 2 0 s ∧
        4 / 3 ∈ Set.uIoo s.best.x s.counter.x) ∧
    (search ⟨1 / 10, 0, 10, false⟩ (fun _ (x : ℚ) => .ok (x * x - 2)) 1 2).outcome =
      .ok ⟨149 / 105, 151 / 11025, ⟨2, 4, 0⟩⟩ ∧
    (149 / 105 : ℚ) ∈ Set.uIcc 1 2 := by
  have valid : SearchConfig.validate ⟨(1 / 10 : ℚ), 0, 10, false⟩ = .ok () := by decide +kernel
  have left : (1 * 1 - 2 : ℚ) = -1 := by norm_num
  have right : (2 * 2 - 2 : ℚ) = 2 := by norm_num
  have contained := search_contained (f := fun _ (x : ℚ) => .ok (x * x - 2)) (a := 1) (b := 2)
    valid (congrArg _ left) (congrArg _ right) (by norm_num) (by norm_num) (by norm_num)
  have ok : (search ⟨1 / 10, 0, 10, false⟩ (fun _ (x : ℚ) => .ok (x * x - 2)) 1 2).outcome =
      .ok ⟨149 / 105, 151 / 11025, ⟨2, 4, 0⟩⟩ := Run.ok_of_toOption (by decide +kernel)
  obtain ⟨s, holds, inside⟩ := contained.1 0 (4 / 3) (by decide +kernel)
  exact ⟨⟨s, holds, (contained.2.1 0 s holds).1, inside⟩, ok, contained.2.2 _ ok⟩

end Nonlinear.Root
