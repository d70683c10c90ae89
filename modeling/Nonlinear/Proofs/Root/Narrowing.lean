import Mathlib
import Nonlinear.Proofs.Root.Containment

/-! # How fast a root search narrows its bracket

In exact arithmetic a bisection halves the bracket, and an interpolated step is shorter than
half of the step before, so that there cannot be many of them in a row without a bisection.
This holds of steps that are taken as they are proposed.  A step that is lengthened to the
resolution is compared with nothing: interpolated steps of that length can follow each other
until they have crossed the bracket, and what is left is a bound linear in its width.
-/

namespace Nonlinear.Root

open Scalar

variable {K : Type} [Field K] [LinearOrder K] [ExactConstants K]

namespace Bracket

/-- The step that led to the best estimate. -/
def lastStep (s : Bracket K) : K := s.best.x - s.previous.x

variable (s : Bracket K)

/-- The step of an iteration is taken as it was proposed. -/
def Strides (config : SearchConfig K) : Prop :=
  s.keepBest.resolution config.tolerance ≤ |(s.move config).2|

instance (config : SearchConfig K) : Decidable (s.Strides config) := by
  unfold Strides; infer_instance

variable [IsStrictOrderedRing K]

omit [IsStrictOrderedRing K] in
theorem abs_width_keepBest : |s.keepBest.width| = |s.width| := by
  rw [keepBest_exact]
  split
  · exact abs_sub_comm _ _
  · rfl

theorem lastStep_advance {config : SearchConfig K} {p : Sample K}
    (at_target : p.x = s.target config) :
    (s.keepBest.advance p).lastStep =
      lengthen (s.keepBest.resolution config.tolerance) (s.move config).2 := by
  rw [advance_exact]
  show p.x - s.keepBest.best.x = _
  rw [at_target, target, add_sub_cancel_left]

/-- An interpolated step that is accepted is shorter than half of the step before. -/
theorem short_of_accepts {step : Quotient K} {r l : K} (nonneg : 0 ≤ step.p)
    (h : s.accepts step r l) :
    2 * |step.p / step.q| < |l| ∧ |step.p / step.q| < 3 / 4 * |s.width| - |r| / 2 := by
  obtain ⟨inner, shorter⟩ := (s.accepts_exact _ _ _).mp h
  have q_nonzero : step.q ≠ 0 := by
    rintro zero
    rw [zero, mul_zero, zero_div, abs_zero] at shorter
    exact absurd nonneg (not_le_of_gt shorter)
  have q_pos : 0 < |step.q| := abs_pos.mpr q_nonzero
  rw [abs_div, abs_of_nonneg nonneg]
  constructor
  · rw [abs_div, abs_mul, abs_two] at shorter
    rw [mul_div_assoc', div_lt_iff₀ q_pos]
    linarith
  · have along : s.width * step.q ≤ |s.width| * |step.q| := by
      rw [← abs_mul]
      exact le_abs_self _
    rw [abs_mul] at inner
    rw [div_lt_iff₀ q_pos]
    linarith

/-- A proposed step is a bisection, or it is interpolated after a step that was not tiny. -/
theorem move_cases (config : SearchConfig K) :
    2 * |(s.move config).2| = |s.width| ∨
      s.keepBest.resolution config.tolerance ≤ |s.lastStep| ∧
        2 * |(s.move config).2| < |s.lastStep| ∧
        |(s.move config).2| <
          3 / 4 * |s.width| - |s.keepBest.resolution config.tolerance| / 2 := by
  have half : 2 * |s.keepBest.width / (2.0 : K)| = |s.width| := by
    have two : (2.0 : K) = 2 := by norm_num
    rw [two, abs_div, abs_two, abs_width_keepBest, mul_div_cancel₀ _ two_ne_zero]
  unfold move propose
  split
  · exact .inl half
  · rename_i interpolates
    rw [not_or, not_or] at interpolates
    dsimp only
    split
    · right
      have nonneg : 0 ≤ s.keepBest.interpolate.p := by
        rw [interpolate_exact]
        exact abs_nonneg _
      obtain ⟨shorter, inner⟩ := short_of_accepts _ nonneg ‹_›
      rw [abs_width_keepBest] at inner
      exact ⟨not_lt.mp interpolates.2.1, shorter, inner⟩
    · exact .inl half

end Bracket

variable [IsStrictOrderedRing K] {config : SearchConfig K} {f : ScalarFunction K} {a b : K}

/-- A point inside the bracket cuts it in two parts, one of which is left. -/
theorem width_advance {s : Bracket K} {p : Sample K}
    (inside : p.x ∈ Set.uIoo s.best.x s.counter.x) :
    |(s.advance p).width| = |p.x - s.best.x| ∨
      |(s.advance p).width| = |s.width| - |p.x - s.best.x| := by
  rw [Bracket.advance_exact]
  split
  · exact .inl (abs_sub_comm _ _)
  · right
    show |s.counter.x - p.x| = |s.counter.x - s.best.x| - |p.x - s.best.x|
    rcases mul_pos_iff.mp (mem_uIoo_iff.mp inside) with ⟨after, before⟩ | ⟨after, before⟩
    · rw [abs_of_pos after, abs_of_pos before, abs_of_pos (by linarith)]
      ring
    · rw [abs_of_neg after, abs_of_neg before, abs_of_neg (by linarith)]
      ring

/-- What an iteration does to the width of the bracket and to the length of the last step. -/
structure Narrows (config : SearchConfig K) (s t : Bracket K) : Prop where
  wide : config.tolerance < |s.width|
  narrower : |t.width| + config.tolerance / 2 ≤ |s.width|
  long : config.tolerance / 2 ≤ |t.lastStep|
  inside : |t.lastStep| < |s.width|
  progress : 2 * |t.width| ≤ |s.width| ∨
    |t.lastStep| ≤ |s.lastStep| ∧ (s.Strides config → 2 * |t.lastStep| < |s.lastStep|)

theorem Separates.narrows {s : Bracket K} {p : Sample K} (h : Separates s)
    (valid : config.validate = .ok ()) (unsettled : ¬ s.settled config)
    (at_target : p.x = s.target config) : Narrows config s (s.keepBest.advance p) := by
  obtain ⟨tolerance, -⟩ := SearchConfig.bounds_of_valid valid
  obtain ⟨wide, -⟩ := unsettled_iff.mp unsettled
  rw [s.abs_width_keepBest] at wide
  have resolution := s.keepBest.resolution_pos tolerance
  have fine : config.tolerance / 2 ≤ s.keepBest.resolution config.tolerance := by
    have nonneg : 0 ≤ 2 * (ExactConstants.epsilon : K) * |s.keepBest.best.x| :=
      mul_nonneg (mul_nonneg zero_le_two ExactConstants.epsilon_nonneg) (abs_nonneg _)
    rw [Bracket.resolution_exact]
    linarith
  have step : |(s.keepBest.advance p).lastStep| =
      max |(s.move config).2| (s.keepBest.resolution config.tolerance) := by
    rw [s.lastStep_advance at_target, abs_lengthen resolution.le]
  have moves := s.move_cases config
  rw [abs_of_pos resolution] at moves
  have shorter : |(s.keepBest.advance p).lastStep| ≤
      |s.width| - s.keepBest.resolution config.tolerance := by
    rw [step]
    refine max_le ?_ (by linarith)
    rcases moves with half | ⟨-, -, inner⟩ <;> linarith
  have longer := step.ge.trans' (le_max_right _ _)
  have cut : |(s.keepBest.advance p).width| = |(s.keepBest.advance p).lastStep| ∨
      |(s.keepBest.advance p).width| = |s.width| - |(s.keepBest.advance p).lastStep| := by
    have inside := h.target_mem valid unsettled
    rw [← at_target] at inside
    have parts := width_advance inside
    rw [s.abs_width_keepBest] at parts
    exact parts
  refine ⟨by linarith, ?_, fine.trans longer, by linarith, ?_⟩
  · rcases cut with eq | eq <;> linarith
  · rcases moves with half | ⟨before, half, -⟩
    · left
      rw [max_eq_left (by linarith)] at step
      rcases cut with eq | eq <;> linarith
    · refine .inr ⟨?_, fun strides => ?_⟩
      · rw [step]
        refine max_le ?_ before
        have := abs_nonneg (s.move config).2
        linarith
      · rw [step, max_eq_left strides]
        exact half

variable {k m : Nat} {trace trace' : List (SearchEntry K (Event K))} {s t : Bracket K × Counters}

/-- Every bracket of a search but the first comes from the one before it. -/
theorem Reaches.narrows (h : Reaches config f a b (k + 1) trace t) :
    ∃ earlier s, Reaches config f a b k earlier s ∧ Narrows config s.1 t.1 := by
  obtain ⟨earlier, s, p, before, unsettled, gives, rfl⟩ := Scheme.Reaches.succ h
  exact ⟨earlier, s, before, (Reaches.separates before).1.narrows h.valid unsettled gives.at_point⟩

omit [IsStrictOrderedRing K] in
theorem Reaches.begins (h : Reaches config f a b 0 trace t) :
    |t.1.width| = |b - a| ∧ |t.1.lastStep| = |b - a| := by
  obtain ⟨_, s, _, ⟨p, q, opens, -, rfl⟩, -, leads, -⟩ := h
  cases leads with
  | here =>
      show |p.x - q.x| = _ ∧ |q.x - p.x| = _
      rw [opens.left.at_point, opens.right.at_point]
      exact ⟨abs_sub_comm _ _, rfl⟩

/-- Every iteration takes half a tolerance off the bracket. -/
theorem Reaches.width_le (h : Reaches config f a b k trace t) :
    |t.1.width| + k * (config.tolerance / 2) ≤ |b - a| := by
  induction k generalizing trace t with
  | zero =>
      rw [h.begins.1, Nat.cast_zero, zero_mul, add_zero]
  | succ k ih =>
      obtain ⟨_, s, before, narrows⟩ := h.narrows
      have := ih before
      have := narrows.narrower
      push_cast
      linarith

theorem Reaches.lastStep_le (h : Reaches config f a b k trace t) : |t.1.lastStep| ≤ |b - a| := by
  cases k with
  | zero => exact h.begins.2.le
  | succ k =>
      obtain ⟨tolerance, -⟩ := SearchConfig.bounds_of_valid h.valid
      obtain ⟨_, s, before, narrows⟩ := h.narrows
      have := before.width_le
      have : 0 ≤ (k : K) * (config.tolerance / 2) := by positivity
      linarith [narrows.inside]

/-- At least `n` of the iterations from `k` up to `l` take their steps as proposed. -/
def Strides (config : SearchConfig K) (f : ScalarFunction K) (a b : K) (n k l : Nat) : Prop :=
  ∃ J ⊆ Finset.Ico k l, J.card = n ∧
    ∀ j ∈ J, ∃ trace t, Reaches config f a b j trace t ∧ t.1.Strides config

/-- Until the bracket is halved, every step that is taken as proposed halves the last step. -/
theorem Reaches.stretch {n : Nat} (from_k : Reaches config f a b k trace s)
    (to_l : Reaches config f a b (k + m) trace' t) (strides : Strides config f a b n k (k + m)) :
    |t.1.width| ≤ |s.1.width| ∧
      (2 * |t.1.width| ≤ |s.1.width| ∨
        2 ^ n * |t.1.lastStep| ≤ |s.1.lastStep| ∧
          (n ≠ 0 → 2 ^ n * |t.1.lastStep| < |s.1.lastStep|)) := by
  obtain ⟨J, within, rfl, strides⟩ := strides
  obtain ⟨tolerance, -⟩ := SearchConfig.bounds_of_valid from_k.valid
  induction m generalizing trace' t J with
  | zero =>
      rw [Nat.add_zero, Finset.Ico_self, Finset.subset_empty] at within
      obtain rfl : s = t := from_k.unique to_l
      subst within
      simp
  | succ m ih =>
      obtain ⟨_, u, before, narrows⟩ := Reaches.narrows (k := k + m) to_l
      have within' : J.erase (k + m) ⊆ Finset.Ico k (k + m) := by
        intro j mem
        obtain ⟨ne, mem⟩ := Finset.mem_erase.mp mem
        have := Finset.mem_Ico.mp (within mem)
        rw [Finset.mem_Ico]
        omega
      obtain ⟨le, rest⟩ := ih before (J.erase (k + m)) within'
        fun j mem => strides j (Finset.mem_of_mem_erase mem)
      have narrower := narrows.narrower
      refine ⟨by linarith, ?_⟩
      rcases rest with half | ⟨shrinks, strictly⟩
      · left
        linarith
      rcases narrows.progress with half | ⟨shorter, halved⟩
      · left
        linarith
      right
      have pow_pos : (0 : K) < 2 ^ (J.erase (k + m)).card := by positivity
      by_cases mem : k + m ∈ J
      · obtain ⟨_, v, reaches, taken⟩ := strides _ mem
        obtain rfl : v = u := reaches.unique before
        have last : 2 ^ J.card * |t.1.lastStep| < |s.1.lastStep| := by
          calc 2 ^ J.card * |t.1.lastStep|
              = 2 ^ (J.erase (k + m)).card * (2 * |t.1.lastStep|) := by
                rw [← Finset.card_erase_add_one mem, pow_succ, mul_assoc]
            _ < 2 ^ (J.erase (k + m)).card * |v.1.lastStep| :=
                mul_lt_mul_of_pos_left (halved taken) pow_pos
            _ ≤ |s.1.lastStep| := shrinks
        exact ⟨last.le, fun _ => last⟩
      · rw [Finset.erase_eq_of_notMem mem] at shrinks strictly pow_pos
        have last := mul_le_mul_of_nonneg_left shorter pow_pos.le
        exact ⟨last.trans shrinks, fun some => last.trans_lt (strictly some)⟩

/-- A stretch with enough steps that are taken as proposed has a bisection in it. -/
theorem Reaches.halves {n : Nat} (from_k : Reaches config f a b k trace s)
    (to_l : Reaches config f a b (k + m) trace' t) (nonempty : m ≠ 0)
    (scale : 2 * |b - a| ≤ 2 ^ n * config.tolerance)
    (strides : Strides config f a b n k (k + m)) : 2 * |t.1.width| ≤ |s.1.width| := by
  obtain ⟨m, rfl⟩ := Nat.exists_eq_succ_of_ne_zero nonempty
  obtain ⟨-, rest⟩ := from_k.stretch to_l strides
  refine rest.resolve_right fun ⟨_, strictly⟩ => ?_
  obtain ⟨tolerance, -⟩ := SearchConfig.bounds_of_valid from_k.valid
  obtain ⟨_, u, before, narrows⟩ := Reaches.narrows (k := k + m) to_l
  have wide : config.tolerance < |b - a| := by
    have := before.width_le
    have : (0 : K) ≤ ((k + m : Nat) : K) * (config.tolerance / 2) := by positivity
    linarith [narrows.wide]
  have some : n ≠ 0 := by
    rintro rfl
    linarith
  have : 2 ^ n * (config.tolerance / 2) ≤ 2 ^ n * |t.1.lastStep| :=
    mul_le_mul_of_nonneg_left narrows.long (by positivity)
  have := strictly some
  have := from_k.lastStep_le
  linarith

/-- A search between values without the same sign opens, or it answers one of its ends at once. -/
theorem opens_or_ok {fa fb : K} (valid : config.validate = .ok ()) (left : f 1 a = .ok fa)
    (right : f 2 b = .ok fb) (opposite : fa * fb ≤ 0) :
    Opens config f a b ⟨a, fa⟩ ⟨b, fb⟩ ∨
      ∃ r, (search config f a b).outcome = .ok r ∧ r.counters.iterations = 0 := by
  have sampled : Sampled config f a b ⟨a, fa⟩ ⟨b, fb⟩ :=
    ⟨rfl, rfl, valid, ⟨rfl, left, rfl⟩, ⟨rfl, right, rfl⟩⟩
  obtain ⟨-, functionTolerance⟩ := SearchConfig.bounds_of_valid valid
  rw [sampled.search_eq, Run.after_outcome, proceed]
  split
  · exact .inr ⟨_, rfl, rfl⟩
  rename_i far_left
  split
  · exact .inr ⟨_, rfl, rfl⟩
  rename_i far_right
  have large_left : config.functionTolerance < |fa| := not_le.mp far_left
  have large_right : config.functionTolerance < |fb| := not_le.mp far_right
  have nonzero : fa * fb ≠ 0 := mul_ne_zero (abs_pos.mp (functionTolerance.trans_lt large_left))
    (abs_pos.mp (functionTolerance.trans_lt large_right))
  exact .inl (opens_of_opposite valid left right large_left large_right
    (lt_of_le_of_ne opposite nonzero))

/-- Where steps are taken as they are proposed, a search narrows its bracket geometrically: a
stretch with `N` of them halves it.  If every stretch is of this kind, a budget of `N + 1`
stretches is enough.  Otherwise the budget must be as large as the bracket has half tolerances. -/
theorem search_narrows {fa fb : K} {N : Nat} (valid : config.validate = .ok ())
    (total : ∀ k x, ∃ y, f k x = .ok y) (left : f 1 a = .ok fa) (right : f 2 b = .ok fb)
    (opposite : fa * fb ≤ 0) (scale : 2 * |b - a| ≤ 2 ^ N * config.tolerance) :
    (∀ k s t, HoldsAfter config f a b k s → HoldsAfter config f a b (k + 2 * (N + 2)) t →
      Strides config f a b N k (k + 2 * (N + 2)) → 2 * |t.width| ≤ |s.width|) ∧
    ((∀ k t, HoldsAfter config f a b (k + 2 * (N + 2)) t →
        Strides config f a b N k (k + 2 * (N + 2))) →
      2 * (N + 2) * (N + 1) ≤ config.maxIterations →
        ∃ r, (search config f a b).outcome = .ok r) ∧
    (2 * |b - a| ≤ config.maxIterations * config.tolerance →
      ∃ r, (search config f a b).outcome = .ok r) := by
  obtain ⟨tolerance, -⟩ := SearchConfig.bounds_of_valid valid
  have gives := ScalarFunction.gives_of_total total
  have ok_unless (budget : ∀ trace t, Reaches config f a b config.maxIterations trace t →
      ¬ config.tolerance < |t.1.width|) : ∃ r, (search config f a b).outcome = .ok r := by
    rcases opens_or_ok valid left right opposite with opens | ⟨r, ok, -⟩
    · rcases Scheme.ok_or_exhausted opens.search_eq opens.starts gives with
        ok | ⟨trace, t, reaches, unsettled⟩
      · exact ok
      · have narrows := (Reaches.separates reaches).1.narrows (p := ⟨t.1.target config, 0⟩)
          valid unsettled rfl
        exact absurd narrows.wide (budget trace t reaches)
    · exact ⟨r, ok⟩
  refine ⟨?_, ?_, ?_⟩
  · rintro k _ _ ⟨trace, s, from_k, rfl⟩ ⟨trace', t, to_l, rfl⟩ strides
    rw [Bracket.abs_width_keepBest, Bracket.abs_width_keepBest]
    exact from_k.halves to_l (by omega) scale strides
  · intro strides budget
    refine ok_unless fun trace t reaches wide => ?_
    obtain ⟨_, s, before⟩ := Scheme.Reaches.earlier reaches budget
    have := Scheme.Reaches.width_le_of_halves (w := fun s => |s.width|) before
      (fun _ _ start => (Reaches.begins start).1.le) fun i _ _ _ _ from_i to_l =>
        Reaches.halves from_i to_l (by omega) scale (strides i _ ⟨_, _, to_l, rfl⟩)
    have never_wider : |t.1.width| ≤ |s.1.width| := by
      rw [← Nat.add_sub_cancel' budget] at reaches
      exact (Reaches.stretch before reaches ⟨∅, Finset.empty_subset _, rfl, by simp⟩).1
    have scaled : 2 ^ (N + 1) * config.tolerance < 2 ^ (N + 1) * |s.1.width| :=
      mul_lt_mul_of_pos_left (wide.trans_le never_wider) (by positivity)
    rw [pow_succ] at scaled this
    have : 0 < 2 ^ N * config.tolerance := by positivity
    linarith
  · intro budget
    refine ok_unless fun trace t reaches wide => ?_
    have := reaches.width_le
    linarith

/-- Negative up to zero.  Beyond, every value is a fourth of the one before, but that every
eighth call gives the value before again. -/
def stumbling : ScalarFunction ℚ := fun k x =>
  .ok (if x ≤ 0 then -1 else (1 / 4) ^ (k - (k + 1) / 8))

/-- Five of the fourteen steps of this search are taken as proposed, and they halve the bracket.
A budget for six such stretches is enough, and so is one for steps of half a tolerance. -/
theorem search_narrows_stumbling :
    (∃ s t, HoldsAfter ⟨1 / 16, 0, 84, false⟩ stumbling 0 1 0 s ∧
      HoldsAfter ⟨1 / 16, 0, 84, false⟩ stumbling 0 1 14 t ∧ 2 * |t.width| ≤ |s.width|) ∧
    (∃ r, (search ⟨1 / 16, 0, 84, false⟩ stumbling 0 1).outcome = .ok r) ∧
    ∃ r, (search ⟨1 / 16, 0, 32, false⟩ stumbling 0 1).outcome = .ok r := by
  have valid : SearchConfig.validate ⟨(1 / 16 : ℚ), 0, 84, false⟩ = .ok () := by decide +kernel
  have valid' : SearchConfig.validate ⟨(1 / 16 : ℚ), 0, 32, false⟩ = .ok () := by decide +kernel
  have left : stumbling 1 0 = .ok (-1) := by norm_num [stumbling]
  have right : stumbling 2 1 = .ok (1 / 16) := by norm_num [stumbling]
  have opens : Opens ⟨1 / 16, 0, 84, false⟩ stumbling 0 1 ⟨0, -1⟩ ⟨1, 1 / 16⟩ :=
    ⟨⟨rfl, rfl, valid, ⟨rfl, left, rfl⟩, ⟨rfl, right, rfl⟩⟩, by decide +kernel,
      by decide +kernel, by decide +kernel⟩
  have total : ∀ k x, ∃ y, stumbling k x = .ok y := fun _ _ => ⟨_, rfl⟩
  let loop := (scheme ⟨(1 / 16 : ℚ), 0, 84, false⟩).loop stumbling 84
  let start : Bracket ℚ × Counters := opening ⟨0, -1⟩ ⟨1, 1 / 16⟩
  have taken : ∀ j ∈ ({0, 5, 6, 7, 13} : Finset ℕ), j ≤ 84 ∧ (loop.stateAfter j start).any
      (fun t => t.1.Strides ⟨1 / 16, 0, 84, false⟩) = true := by decide +kernel
  have strides : Strides ⟨1 / 16, 0, 84, false⟩ stumbling 0 1 5 0 14 := by
    refine ⟨{0, 5, 6, 7, 13}, by decide, rfl, fun j mem => ?_⟩
    obtain ⟨le, taken⟩ := taken j mem
    obtain ⟨u, at_u, strides⟩ := (Option.any_eq_true _ _).mp taken
    obtain ⟨_, reaches⟩ := Scheme.reaches_of_stateAfter opens.starts le at_u
    exact ⟨_, u, reaches, of_decide_eq_true strides⟩
  have ends : (loop.stateAfter 14 start).any
      (fun t => t.1.settled ⟨1 / 16, 0, 84, false⟩) = true := by decide +kernel
  obtain ⟨t, at_t, settled⟩ := (Option.any_eq_true _ _).mp ends
  have from_start := opens.reaches
  obtain ⟨_, to_t⟩ :=
    Scheme.reaches_of_stateAfter opens.starts (by decide : 14 ≤ 84) at_t
  have narrows := search_narrows (N := 5) (a := 0) (b := 1) valid total left right (by norm_num)
    (by norm_num)
  refine ⟨⟨_, _, ⟨_, _, from_start, rfl⟩, ⟨_, _, to_t, rfl⟩,
    narrows.1 0 _ _ ⟨_, _, from_start, rfl⟩ ⟨_, _, to_t, rfl⟩ strides⟩, ?_, ?_⟩
  · refine narrows.2.1 (fun k _ ⟨_, _, reaches, _⟩ => ?_) (by decide)
    have ended : k + 14 ≤ 14 := Scheme.Reaches.le_of_settled to_t reaches
      (fun _ _ _ _ => Starts.unique) (of_decide_eq_true settled)
    obtain rfl : k = 0 := by omega
    exact strides
  · exact (search_narrows (N := 5) (a := 0) (b := 1) valid' total left right (by norm_num)
      (by norm_num)).2.2 (by norm_num)

/-- Negative up to zero, and falling by a factor of four over every 256th part of the way from
there to one. -/
def staircase : ScalarFunction ℚ := fun _ x =>
  .ok (if x ≤ 0 then -1 else (1 / 4) ^ (5 + ⌊256 * (1 - x)⌋₊))

/-- With steps that are lengthened, twenty iterations do not halve the bracket, and nine such
stretches do not find the root, though the tolerance is a 128th of the bracket. -/
theorem staircase_not_narrowed :
    (∃ s t, HoldsAfter ⟨1 / 128, 0, 180, false⟩ staircase 0 1 0 s ∧
      HoldsAfter ⟨1 / 128, 0, 180, false⟩ staircase 0 1 20 t ∧ |s.width| < 2 * |t.width|) ∧
    ¬ ∃ r, (search ⟨1 / 128, 0, 180, false⟩ staircase 0 1).outcome = .ok r := by
  have left : staircase 1 0 = .ok (-1) := by norm_num [staircase]
  have right : staircase 2 1 = .ok ((1 / 4) ^ 5) := by norm_num [staircase]
  have opens : Opens ⟨1 / 128, 0, 180, false⟩ staircase 0 1 ⟨0, -1⟩ ⟨1, (1 / 4) ^ 5⟩ :=
    ⟨⟨rfl, rfl, by decide +kernel, ⟨rfl, left, rfl⟩, ⟨rfl, right, rfl⟩⟩, by decide +kernel,
      by decide +kernel, by decide +kernel⟩
  constructor
  · let loop := (scheme ⟨(1 / 128 : ℚ), 0, 180, false⟩).loop staircase 180
    let start : Bracket ℚ × Counters := opening ⟨0, -1⟩ ⟨1, (1 / 4) ^ 5⟩
    have wide : (loop.stateAfter 20 start).any
        (fun t => |start.1.keepBest.width| < 2 * |t.1.keepBest.width|) = true := by decide +kernel
    obtain ⟨t, at_t, wide⟩ := (Option.any_eq_true _ _).mp wide
    have from_start := opens.reaches
    obtain ⟨_, to_t⟩ :=
      Scheme.reaches_of_stateAfter opens.starts (by decide : 20 ≤ 180) at_t
    exact ⟨_, _, ⟨_, _, from_start, rfl⟩, ⟨_, _, to_t, rfl⟩, of_decide_eq_true wide⟩
  · rintro ⟨r, ok⟩
    have fails : (search ⟨1 / 128, 0, 180, false⟩ staircase 0 1).outcome.isOk = false := by
      decide +kernel
    rw [ok] at fails
    cases fails

end Nonlinear.Root
