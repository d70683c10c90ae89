import Mathlib
import Nonlinear.Proofs.Config
import Nonlinear.Proofs.Root.Course
import Nonlinear.Proofs.Search.Rounded

/-! # The root search in rounded arithmetic

A proposed step goes at most to the counterpoint, however its operations were rounded: half of
the bracket does, and an interpolated step is accepted only where its numerator is below three
quarters of the bracket times its denominator.  What rounding can do is to make an interpolated
step zero.  Such a step is lengthened downwards, which is wrong where the counterpoint lies
above.
-/

namespace Nonlinear.Root

open Scalar BinaryScalar FloatingPoint

variable {α : Type} [Scalar α] [BinaryScalar α] [BinaryConstants α]

namespace Bracket

variable {s : Bracket α} {r l t : α}

/-- The resolution may be infinite, but it is not a NaN and not negative. -/
theorem resolution_nonneg (finite : isFinite s.best.x = true) (ht : isFinite t = true)
    (nonneg : 0 ≤ real t) : isNaN (s.resolution t) = false ∧ 0 ≤ real (s.resolution t) := by
  have two := BinaryConstants.two (α := α)
  have one := BinaryConstants.one (α := α)
  have unit := BinaryConstants.epsilon (α := α)
  have relative := mul_rounded two.isFinite unit.isFinite
  rw [two.real, unit.real] at relative
  have small : (2 : ℚ) * 2 ^ (1 - (format α).mantissaBits : ℤ) ≤ 1 := by
    have precise := BinaryConstants.precise (α := α)
    rw [← zpow_one_add₀ two_ne_zero]
    exact zpow_le_one_of_nonpos₀ one_le_two (by omega)
  have relative_nonneg : 0 ≤ real ((2.0 : α) * epsilon) := relative.nonneg (by positivity)
  have relative_le : real ((2.0 : α) * epsilon) ≤ 1 := by
    rw [← one.real]
    exact relative.real_le (small.trans_eq one.real.symm)
  have relative_finite : isFinite ((2.0 : α) * epsilon) = true :=
    relative.isFinite_of_le one.isFinite (by positivity) (small.trans_eq one.real.symm)
  obtain ⟨product_finite, product_nonneg⟩ := mul_le_right relative_finite
    ((LawfulScalar.isFinite_magnitude s.best.x).trans finite) relative_nonneg relative_le
    (by rw [real_magnitude]; exact abs_nonneg _)
  have half := half_rounded ht
  have half_finite : isFinite (t / 2.0) = true :=
    half.isFinite_of_le ht (by positivity) (by linarith)
  have sum := add_rounded product_finite half_finite
  exact ⟨sum.isNaN, sum.nonneg (add_nonneg product_nonneg (half.nonneg (by positivity)))⟩

omit [BinaryScalar α] [BinaryConstants α] in
/-- However an interpolated step comes about, its numerator is turned to be not negative. -/
theorem interpolate_eq (s : Bracket α) : ∃ kind p q, kind ≠ .bisection ∧
    s.interpolate = if 0.0 < p then ⟨kind, p, -q⟩ else ⟨kind, -p, q⟩ := by
  refine ⟨_, _, _, ?_, rfl⟩
  cases s.previous.x == s.counter.x with
  | true => rintro ⟨⟩
  | false => rintro ⟨⟩

omit [BinaryScalar α] [BinaryConstants α] in
theorem interpolate_kind (s : Bracket α) : s.interpolate.kind ≠ .bisection := by
  obtain ⟨kind, p, q, other, eq⟩ := s.interpolate_eq
  rw [eq]
  split
  · exact other
  · exact other

omit [BinaryConstants α] in
theorem interpolate_nonneg (number : isNaN s.interpolate.p = false) :
    0 ≤ real s.interpolate.p := by
  obtain ⟨kind, p, q, -, eq⟩ := s.interpolate_eq
  rw [eq] at number ⊢
  split
  · rename_i pos
    rw [if_pos pos] at number
    rw [pos_iff_real number] at pos
    exact pos.le
  · rename_i notPos
    rw [if_neg notPos, isNaN_neg] at number
    rw [pos_iff_real number, not_lt] at notPos
    rw [real_neg]
    exact neg_nonneg.mpr notPos

omit [BinaryConstants α] in
/-- What is not negative, over a number by which a third one exceeds it, goes towards that one. -/
theorem quotient_mem {p q w : α} (hp : isFinite p = true) (hq : isNaN q = false)
    (hw : isFinite w = true) (nonneg : 0 ≤ real p) (below : real p < real (w * q)) :
    isFinite (p / q) = true ∧ real (p / q) ∈ Set.uIcc 0 (real w) := by
  rcases finite_or_infinite hq with finite | infinite
  · have product := mul_rounded hw finite
    have le : real p ≤ real w * real q := product.le_of_lt below
    have pos : 0 < real w * real q := by
      by_contra notPos
      exact absurd (nonneg.trans_lt below) (not_lt_of_ge (product.nonpos (not_lt.mp notPos)))
    have quotient := div_rounded hp finite (right_ne_zero_of_mul pos.ne')
    have inner : real p / real q ∈ Set.uIcc (real (0.0 : α)) (real w) := by
      rw [real_zero, Set.mem_uIcc]
      rcases mul_pos_iff.mp pos with ⟨_, q_pos⟩ | ⟨_, q_neg⟩
      · exact .inl ⟨div_nonneg nonneg q_pos.le, (div_le_iff₀ q_pos).mpr le⟩
      · exact .inr ⟨(le_div_iff_of_neg q_neg).mpr le,
          div_nonpos_of_nonneg_of_nonpos nonneg q_neg.le⟩
    have outer := quotient.mem_uIcc inner
    rw [real_zero] at outer
    exact ⟨quotient.isFinite LawfulScalar.isFinite_zero hw inner, outer⟩
  · obtain ⟨finite, zero⟩ := (infinite.div_right hp).stands_zero
    rw [zero]
    exact ⟨finite, Set.left_mem_uIcc⟩

/-- The way from the best estimate to the counterpoint, before rounding. -/
def way (s : Bracket α) : ℚ := real s.counter.x - real s.best.x

variable (finite : isFinite s.best.x = true) (finite' : isFinite s.counter.x = true)
  (wide : isFinite s.width = true)

include finite finite' wide

theorem half_mem :
    isFinite (s.width / 2.0) = true ∧ real (s.width / 2.0) ∈ Set.uIcc 0 s.way := by
  refine fraction_mem finite finite' wide (κ := 1 / 2) ?_ (by norm_num) (by norm_num)
  have half := half_rounded wide
  rwa [div_eq_inv_mul, ← one_div] at half

/-- An accepted quotient is a step on the way to the counterpoint. -/
theorem accepted_mem {step : Quotient α} (nonneg : isNaN step.p = false → 0 ≤ real step.p)
    (accepts : s.accepts step r l) :
    isFinite (step.p / step.q) = true ∧ real (step.p / step.q) ∈ Set.uIcc 0 s.way := by
  have three := BinaryConstants.three_quarters (α := α)
  have below : step.p < 0.75 * s.width * step.q := by
    refine lt_of_lt_sub accepts.1 fun number => half_nonneg number ?_
    rw [real_magnitude]
    exact abs_nonneg _
  obtain ⟨number, number', -⟩ := lt_iff_value.mp below
  have p_nonneg := nonneg number
  rw [lt_iff_real number number'] at below
  have p_finite : isFinite step.p = true :=
    isFinite_of_abs_lt number ((abs_of_nonneg p_nonneg).trans_lt (below.trans_le (le_abs_self _)))
  obtain ⟨part_finite, part_mem⟩ := fraction_mem finite finite' wide (κ := 3 / 4)
    (three.real ▸ mul_rounded three.isFinite wide) (by norm_num) (le_refl _)
  obtain ⟨quotient_finite, mem⟩ :=
    quotient_mem p_finite (isNaN_of_mul number').2 part_finite p_nonneg below
  exact ⟨quotient_finite, Set.uIcc_subset_uIcc Set.left_mem_uIcc part_mem mem⟩

theorem propose_mem (only : Bool) :
    isFinite (s.propose r l only).2 = true ∧ real (s.propose r l only).2 ∈ Set.uIcc 0 s.way := by
  unfold propose
  split
  · exact half_mem finite finite' wide
  · dsimp only
    split
    · exact accepted_mem finite finite' wide interpolate_nonneg ‹_›
    · exact half_mem finite finite' wide

omit [BinaryConstants α] finite finite' wide in
/-- A step of zero comes from an interpolation. -/
theorem propose_of_zero {only : Bool} (half : real (s.width / 2.0) ≠ 0)
    (zero : real (s.propose r l only).2 = 0) : (s.propose r l only).1 ≠ .bisection := by
  unfold propose at zero ⊢
  split at zero
  · exact absurd zero half
  · rename_i interpolates
    rw [if_neg interpolates]
    dsimp only at zero ⊢
    split at zero
    · rename_i accepts
      rw [if_pos accepts]
      exact s.interpolate_kind
    · exact absurd zero half

end Bracket

/-- An interpolated step is rounded to zero although the counterpoint lies above. -/
def Bracket.Stalls (config : SearchConfig α) (s : Bracket α) : Prop :=
  (s.move config).1 ≠ .bisection ∧ ((s.move config).2 == 0.0) = true ∧
    s.keepBest.best.x < s.keepBest.counter.x

instance (config : SearchConfig α) (s : Bracket α) : Decidable (s.Stalls config) := by
  unfold Bracket.Stalls; infer_instance

/-- Best estimate and counterpoint lie between the ends of the search. -/
structure Spans (a b : α) (s : Bracket α) : Prop where
  best : Between a b s.best.x
  counter : Between a b s.counter.x

namespace Spans

variable {a b : α} {s : Bracket α} {config : SearchConfig α}

omit [BinaryScalar α] [BinaryConstants α] in
theorem keepBest (h : Spans a b s) : Spans a b s.keepBest := by
  unfold Bracket.keepBest
  split
  · exact ⟨h.counter, h.best⟩
  · exact h

omit [BinaryScalar α] [BinaryConstants α] in
theorem advance {p : Sample α} (h : Spans a b s) (between : Between a b p.x) :
    Spans a b (s.advance p) := by
  refine ⟨between, ?_⟩
  unfold Bracket.advance
  dsimp only
  split
  · exact h.best
  · exact h.counter

variable (ha : isFinite a = true) (hb : isFinite b = true) (wide : isFinite (b - a) = true)

include ha hb wide

omit [BinaryConstants α] in
theorem isFinite_width (h : Spans a b s) : isFinite s.width = true := by
  have best := ((between_iff ha hb).mp h.best).2
  have counter := ((between_iff ha hb).mp h.counter).2
  exact isFinite_sub_of_le ha hb h.best.finite h.counter.finite wide
    (Set.abs_sub_le_of_uIcc_subset_uIcc (Set.uIcc_subset_uIcc best counter))

/-- Half of an unsettled bracket is more than its resolution. -/
theorem resolution_lt_half (valid : config.validate = .ok ()) (h : Spans a b s.keepBest)
    (unsettled : ¬ s.settled config) :
    isFinite (s.keepBest.resolution config.tolerance) = true ∧
      0 ≤ real (s.keepBest.resolution config.tolerance) ∧
        real (s.keepBest.resolution config.tolerance) < |real (s.keepBest.width / 2.0)| := by
  obtain ⟨⟨positive, tolerance_finite⟩, -, -⟩ := SearchConfig.validate_ok_iff.mp valid
  rw [pos_iff_real (isNaN_of_isFinite tolerance_finite)] at positive
  obtain ⟨number, nonneg⟩ :=
    s.keepBest.resolution_nonneg h.best.finite tolerance_finite positive.le
  have half_number := isNaN_of_isFinite
    (Bracket.half_mem h.best.finite h.counter.finite (h.isFinite_width ha hb wide)).1
  rw [Bracket.settled, Bracket.converged, not_or,
    le_iff_real ((isNaN_magnitude _).trans half_number) number, real_magnitude, not_le]
    at unsettled
  exact ⟨isFinite_of_abs_lt number ((abs_of_nonneg nonneg).trans_lt unsettled.1), nonneg,
    unsettled.1⟩

/-- Unless a step is rounded to zero, the next point lies between the ends. -/
theorem target_between (valid : config.validate = .ok ()) (h : Spans a b s)
    (unsettled : ¬ s.settled config) (moves : ¬ s.Stalls config) :
    Between a b (s.target config) := by
  have spans := h.keepBest
  have finite := spans.best.finite
  have finite' := spans.counter.finite
  have width_finite := spans.isFinite_width ha hb wide
  obtain ⟨resolution_finite, nonneg, below⟩ :=
    spans.resolution_lt_half ha hb wide valid unsettled
  obtain ⟨move_finite, move_mem⟩ := Bracket.propose_mem
    (r := s.keepBest.resolution config.tolerance) (l := s.best.x - s.previous.x)
    finite finite' width_finite config.bisectionOnly
  have room : real (s.keepBest.resolution config.tolerance) ≤ |s.keepBest.way| := by
    have half := Set.abs_sub_left_of_mem_uIcc (Bracket.half_mem finite finite' width_finite).2
    rw [sub_zero, sub_zero] at half
    exact below.le.trans half
  have down : real (s.move config).2 = 0 → s.keepBest.way ≤ 0 := by
    intro zero
    by_contra up
    rw [Bracket.way, sub_nonpos, not_le] at up
    refine moves ⟨Bracket.propose_of_zero (abs_pos.mp (nonneg.trans_lt below)) zero, ?_, ?_⟩
    · exact (beq_zero_iff_real (isNaN_of_isFinite move_finite)).mpr zero
    · exact (lt_iff_real (isNaN_of_isFinite finite) (isNaN_of_isFinite finite')).mpr up
  have toward := lengthen_mem resolution_finite move_finite nonneg move_mem room down
  have target := add_between finite finite' (isFinite_lengthen resolution_finite move_finite)
    toward
  exact .trans ha hb spans.best spans.counter target

end Spans

variable {config : SearchConfig α} {f : ScalarFunction α} {a b : α}

/-- No bracket of the search asks for a step that is rounded to zero. -/
def Moving (config : SearchConfig α) (f : ScalarFunction α) (a b : α) : Prop :=
  ∀ k trace t, Reaches config f a b k trace t → ¬ t.1.settled config → ¬ t.1.Stalls config

omit [BinaryScalar α] [BinaryConstants α] in
theorem moving_of_bisectionOnly (only : config.bisectionOnly = true) : Moving config f a b := by
  rintro k trace t reaches unsettled ⟨interpolated, -, -⟩
  refine interpolated ?_
  rw [Bracket.move, only, Bracket.propose, if_pos (.inl rfl)]

omit [BinaryScalar α] [BinaryConstants α] in
/-- A search that is settled after `n` iterations is known by its states up to there. -/
theorem moving_of_states {p q : Sample α} {n : Nat} (opens : Opens config f a b p q)
    (le : n ≤ config.maxIterations)
    (moves : ∀ j ≤ n, (((scheme config).loop f config.maxIterations).stateAfter j
      (opening p q)).any (fun t => ¬ t.1.Stalls config) = true)
    (settles : (((scheme config).loop f config.maxIterations).stateAfter n (opening p q)).any
      (fun t => t.1.settled config) = true) : Moving config f a b := by
  intro k trace t reaches _
  exact Scheme.Reaches.of_states (P := fun s => ¬ s.Stalls config) reaches
    (fun _ _ _ _ => Starts.unique) opens.starts le moves settles

theorem Reaches.spans {k : Nat} {trace : List (SearchEntry α (Event α))}
    {t : Bracket α × Counters} (wide : isFinite (b - a) = true) (moving : Moving config f a b)
    (h : Reaches config f a b k trace t) : Spans a b t.1 := by
  have ends : isFinite a = true ∧ isFinite b = true := by
    obtain ⟨_, _, _, ⟨_, _, opens, -⟩, -⟩ := h
    exact ⟨opens.finite_left, opens.finite_right⟩
  obtain ⟨ha, hb⟩ := ends
  refine Scheme.Reaches.invariant (P := fun _ s => Spans a b s) ?_ ?_ h
  · rintro _ _ ⟨p, q, opens, rfl, rfl⟩
    refine ⟨?_, ?_⟩
    · show Between a b q.x
      rw [opens.right.at_point]
      exact between_right ha hb
    · show Between a b p.x
      rw [opens.left.at_point]
      exact between_left ha hb
  · intro k trace more s p reaches spans unsettled gives _
    refine spans.keepBest.advance ?_
    rw [gives.at_point]
    exact spans.target_between ha hb wide h.valid unsettled (moving k trace s reaches unsettled)

/-- Where the distance of the ends is finite and no step is rounded to zero, all arguments of the
function are finite and between the ends, and so is a root that is answered. -/
theorem search_between (wide : isFinite (b - a) = true) (moving : Moving config f a b) :
    StaysBetween a b (search config f a b) := by
  constructor
  · intro x asked
    obtain ⟨ha, hb, rfl | rfl | ⟨k, trace, t, reaches, unsettled, rfl⟩⟩ := target_of_argument asked
    · exact between_left ha hb
    · exact between_right ha hb
    · exact (reaches.spans wide moving).target_between ha hb wide reaches.valid unsettled
        (moving k trace t reaches unsettled)
  · intro r ok
    obtain ⟨p, q, sampled, atEnd | opens⟩ := search_ok ok
    · have ha := sampled.finite_left
      have hb := sampled.finite_right
      rcases atEnd with ⟨⟨x, -⟩ | ⟨x, -⟩, -⟩
      · rw [x, sampled.left.at_point]
        exact between_left ha hb
      · rw [x, sampled.right.at_point]
        exact between_right ha hb
    · obtain ⟨k, trace, t, reaches, -, x, -⟩ :=
        Scheme.reaches_of_ok opens.search_eq opens.starts ok
      rw [x]
      exact (Reaches.spans wide moving reaches).keepBest.best

end Nonlinear.Root
