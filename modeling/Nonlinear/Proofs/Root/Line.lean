import Mathlib
import Nonlinear.Proofs.Root.Interpolation
import Nonlinear.Proofs.Root.Narrowing

/-! # Root search on a straight line

The secant of a straight line is the line itself.  So the first step of a search that may
interpolate leads to the root, whether it is accepted as a secant or is half of the bracket.  If the
root is nearer than the resolution, the step is lengthened and leads beyond it.  The bracket that is
left is then as narrow as the resolution was, and the resolution at the new best estimate is still
at least half of that.
-/

namespace Nonlinear.Root

open Scalar

variable {K : Type} [Field K] [LinearOrder K]

/-- The function that is zero at `root` and has slope `m`. -/
def line (m root : K) : ScalarFunction K := fun _ x => .ok (m * (x - root))

/-- A bracket between two points of a straight line, with the root between them. -/
structure Bracket.OnLine (s : Bracket K) (m root : K) : Prop where
  previous : s.previous = s.counter
  best : s.best.y = m * (s.best.x - root)
  counter : s.counter.y = m * (s.counter.x - root)
  crosses : root ∈ Set.uIoo s.best.x s.counter.x

theorem Bracket.OnLine.previous_value {s : Bracket K} {m root : K} (h : s.OnLine m root) :
    s.previous.y = m * (s.counter.x - root) := h.previous ▸ h.counter

variable [ExactConstants K]

namespace Bracket

variable {s : Bracket K} {m root r l : K}

theorem OnLine.keepBest (h : s.OnLine m root) : s.keepBest.OnLine m root := by
  rw [keepBest_exact]
  split
  · exact ⟨rfl, h.counter, h.best, Set.uIoo_comm s.best.x _ ▸ h.crosses⟩
  · exact h

theorem width_split (s : Bracket K) (root : K) :
    s.width = (root - s.best.x) + (s.counter.x - root) := by
  rw [width_exact]
  ring

variable [IsStrictOrderedRing K]

theorem OnLine.closer (h : s.OnLine m root) (nonzero : m ≠ 0) :
    |s.keepBest.best.x - root| ≤ |s.keepBest.counter.x - root| := by
  have line := h.keepBest
  have smaller : |s.keepBest.best.y| ≤ |s.keepBest.counter.y| := by
    rw [keepBest_exact]
    split
    · exact (show |_| < |_| from ‹_›).le
    · exact not_lt.mp ‹_›
  rw [line.best, line.counter, abs_mul, abs_mul] at smaller
  exact le_of_mul_le_mul_left smaller (abs_pos.mpr nonzero)

/-- A step of less than half the bracket towards the counterpoint is accepted after a step across
the whole bracket. -/
theorem accepts_of_short {step : Quotient K} {d : K} (nonneg : 0 ≤ step.p) (q_nonzero : step.q ≠ 0)
    (value : step.p = d * step.q) (toward : 0 < d * s.width) (short : 2 * |d| < |s.width|)
    (fine : 2 * |r| < |s.width|) (whole : |l| = |s.width|) : s.accepts step r l := by
  have q_pos : 0 < |step.q| := abs_pos.mpr q_nonzero
  have size : step.p = |d| * |step.q| := by rw [← abs_mul, ← value, abs_of_nonneg nonneg]
  have along : s.width * step.q = |s.width| * |step.q| := by
    have square : 0 < d ^ 2 := pow_two_pos_of_ne_zero (left_ne_zero_of_mul toward.ne')
    have same : 0 ≤ d ^ 2 * (s.width * step.q) := by
      calc 0 ≤ d * s.width * step.p := mul_nonneg toward.le nonneg
        _ = d ^ 2 * (s.width * step.q) := by rw [value]; ring
    rw [← abs_mul, abs_of_nonneg ((mul_nonneg_iff_of_pos_left square).mp same)]
  rw [accepts_exact, mul_assoc, along, abs_mul, abs_div, abs_mul, abs_two, whole, size]
  constructor
  · have := mul_lt_mul_of_pos_right short q_pos
    have := mul_lt_mul_of_pos_right fine q_pos
    linarith
  · have := mul_lt_mul_of_pos_right short q_pos
    linarith

/-- The root is on the way to the counterpoint. -/
theorem OnLine.toward (h : s.OnLine m root) : 0 < (root - s.best.x) * s.width := by
  rw [width_split s root, mul_add]
  exact add_pos_of_nonneg_of_pos (mul_self_nonneg _) (mem_uIoo_iff.mp h.crosses)

theorem OnLine.lengths (h : s.OnLine m root) :
    |s.width| = |root - s.best.x| + |s.counter.x - root| := by
  rw [width_split s root]
  exact (abs_add_eq_add_abs_iff _ _).mpr (mul_nonneg_iff.mp (mem_uIoo_iff.mp h.crosses).le)

/-- The secant meets the axis in the root. -/
theorem OnLine.secant (h : s.OnLine m root) (nonzero : m ≠ 0) :
    s.interpolate.q ≠ 0 ∧ s.interpolate.p = (root - s.best.x) * s.interpolate.q := by
  have apart : s.counter.x - root ≠ 0 := right_ne_zero_of_mul (mem_uIoo_iff.mp h.crosses).ne'
  have wide : s.width ≠ 0 := right_ne_zero_of_mul h.toward.ne'
  have two : s.previous.x = s.counter.x := congrArg Sample.x h.previous
  have height : s.previous.y - s.best.y = m * s.width := by
    rw [h.previous_value, h.best, width_exact]
    ring
  have unequal : s.previous.y ≠ s.best.y := sub_ne_zero.mp (height ▸ mul_ne_zero nonzero wide)
  have away : s.previous.y ≠ 0 := h.previous_value ▸ mul_ne_zero nonzero apart
  obtain ⟨-, q_nonzero, meets⟩ := s.secant_meets_axis two away unequal
  refine ⟨q_nonzero, ?_⟩
  have crosses : root = s.best.x + s.interpolate.p / s.interpolate.q := by
    rw [← meets, mem_line_iff unequal, height, h.best, two, ← width_exact,
      mul_div_mul_left _ _ nonzero, mul_div_cancel₀ _ wide, sub_sub_cancel]
  rw [← div_eq_iff q_nonzero]
  linear_combination -crosses

/-- Between points at equal distances the root is half way. -/
theorem OnLine.middle (h : s.OnLine m root) (equal : |s.counter.x - root| = |root - s.best.x|) :
    s.width / 2 = root - s.best.x := by
  have crosses := mem_uIoo_iff.mp h.crosses
  have same : s.counter.x - root = root - s.best.x := by
    refine (abs_eq_abs.mp equal).resolve_right fun opposite => ?_
    rw [opposite, mul_neg] at crosses
    exact absurd (mul_self_nonneg _) (not_le_of_gt (neg_pos.mp crosses))
  rw [width_exact]
  linarith

/-- The first step is to the root, as a secant or as a bisection. -/
theorem OnLine.propose (h : s.OnLine m root) (nonzero : m ≠ 0)
    (closer : |s.best.x - root| ≤ |s.counter.x - root|) (fine : 2 * |r| < |s.width|)
    (whole : |l| = |s.width|) : (s.propose r l false).2 = root - s.best.x := by
  rw [abs_sub_comm] at closer
  unfold Bracket.propose
  by_cases equal : |s.counter.x - root| ≤ |root - s.best.x|
  · -- the values are equal in size, and no secant is tried
    have bisects : |s.previous.y| ≤ |s.best.y| := by
      rw [h.previous_value, h.best, abs_mul, abs_mul, abs_sub_comm s.best.x]
      exact mul_le_mul_of_nonneg_left equal (abs_nonneg m)
    have two : (2.0 : K) = 2 := by norm_num
    rw [if_pos (.inr (.inr bisects)), two]
    exact h.middle (equal.antisymm closer)
  · have interpolates : ¬ (false = true ∨ |l| < r ∨ |s.previous.y| ≤ |s.best.y|) := by
      rintro (off | tiny | worse)
      · cases off
      · have := le_abs_self r
        have := abs_nonneg s.width
        rw [whole] at tiny
        linarith
      · rw [h.previous_value, h.best, abs_mul, abs_mul, abs_sub_comm s.best.x] at worse
        exact equal (le_of_mul_le_mul_left worse (abs_pos.mpr nonzero))
    obtain ⟨q_nonzero, value⟩ := h.secant nonzero
    have nonneg : 0 ≤ s.interpolate.p := by
      rw [interpolate_exact]
      exact abs_nonneg _
    have short : 2 * |root - s.best.x| < |s.width| := by
      rw [h.lengths]
      linarith [not_le.mp equal]
    refine (congrArg Prod.snd (if_neg interpolates)).trans ?_
    rw [if_pos (accepts_of_short nonneg q_nonzero value h.toward short fine whole)]
    exact (div_eq_iff q_nonzero).mpr value

/-- A bracket is settled where it is as narrow as the resolution at a point so near. -/
theorem settled_of_near {t : Bracket K} {config : SearchConfig K}
    (coarse : (ExactConstants.epsilon : K) ≤ 1 / 4)
    (narrow : |t.width| ≤ s.resolution config.tolerance)
    (near : |t.keepBest.best.x - s.best.x| ≤ s.resolution config.tolerance) :
    t.settled config := by
  rw [settled, converged_exact, abs_width_keepBest]
  left
  have nonneg : 0 ≤ (ExactConstants.epsilon : K) := ExactConstants.epsilon_nonneg
  have apart : |s.best.x| - |t.keepBest.best.x| ≤ s.resolution config.tolerance := by
    rw [abs_sub_comm] at near
    exact (abs_sub_abs_le_abs_sub _ _).trans near
  have within := mul_le_mul_of_nonneg_left apart nonneg
  have resolution_nonneg : 0 ≤ s.resolution config.tolerance := (abs_nonneg _).trans near
  have quarter := mul_le_mul_of_nonneg_right coarse resolution_nonneg
  have here := s.resolution_exact config.tolerance
  rw [resolution_exact]
  linarith

/-- A step to the root that is lengthened goes on to the side of the counterpoint. -/
theorem OnLine.beyond (h : s.OnLine m root) (nonzero : m ≠ 0) (short : |root - s.best.x| < r) :
    0 < m * (s.best.x + lengthen r (root - s.best.x) - root) * s.counter.y := by
  have crosses := mem_uIoo_iff.mp h.crosses
  have side : 0 < (s.best.x + lengthen r (root - s.best.x) - root) * (s.counter.x - root) := by
    have inner := abs_lt.mp short
    rw [lengthen_exact, if_pos short]
    rcases mul_pos_iff.mp crosses with ⟨after, before⟩ | ⟨after, before⟩
    · rw [if_pos after]
      exact mul_pos (by linarith) before
    · rw [if_neg (not_lt_of_gt after)]
      exact mul_pos_of_neg_of_neg (by linarith) before
  rw [h.counter, mul_mul_mul_comm]
  exact mul_pos (mul_self_pos.mpr nonzero) side

end Bracket

variable [IsStrictOrderedRing K] {config : SearchConfig K} {m root a b : K} {s : Bracket K}
  {p : Sample K}

/-- The first iteration settles a bracket on a line. -/
theorem Bracket.OnLine.settles (h : s.OnLine m root) (nonzero : m ≠ 0)
    (valid : config.validate = .ok ()) (interpolates : config.bisectionOnly = false)
    (coarse : (ExactConstants.epsilon : K) ≤ 1 / 4) (unsettled : ¬ s.settled config)
    (at_target : p.x = s.target config) (value : p.y = m * (p.x - root)) :
    (s.keepBest.advance p).settled config := by
  obtain ⟨tolerance, functionTolerance⟩ := SearchConfig.bounds_of_valid valid
  obtain ⟨wide, -⟩ := unsettled_iff.mp unsettled
  have resolution := s.keepBest.resolution_pos tolerance
  have moves : (s.move config).2 = root - s.keepBest.best.x := by
    unfold move
    rw [interpolates]
    refine h.keepBest.propose nonzero (h.closer nonzero) ?_ ?_
    · rw [abs_of_pos resolution]
      linarith
    · rw [h.previous, abs_sub_comm, s.abs_width_keepBest, width_exact]
  rw [target, moves] at at_target
  by_cases short : |root - s.keepBest.best.x| < s.keepBest.resolution config.tolerance
  · have crosses : 0 < p.y * s.keepBest.counter.y := by
      rw [value, at_target]
      exact h.keepBest.beyond nonzero short
    have moved : |p.x - s.keepBest.best.x| = s.keepBest.resolution config.tolerance := by
      rw [at_target, add_sub_cancel_left, abs_lengthen resolution.le, max_eq_right short.le]
    rw [advance_exact, if_pos crosses]
    refine s.keepBest.settled_of_near coarse ?_ ?_
    · rw [width_exact, abs_sub_comm]
      exact moved.le
    · rw [Bracket.keepBest_exact]
      split
      · rw [sub_self, abs_zero]
        exact resolution.le
      · exact moved.le
  · rw [lengthen_of_long (not_lt.mp short), add_sub_cancel] at at_target
    rw [at_target, sub_self, mul_zero] at value
    rw [settled, converged_exact, advance_exact, keepBest_exact]
    right
    dsimp only
    rw [value, abs_zero, if_neg (not_lt_of_ge (abs_nonneg _))]
    dsimp only
    rw [value, abs_zero]
    exact functionTolerance

/-- The signs at the ends differ, so the root is between them. -/
theorem Opens.onLine {f : ScalarFunction K} {q : Sample K} (h : Opens config f a b p q)
    (left : p.y = m * (a - root)) (right : q.y = m * (b - root)) :
    (Bracket.between p q).OnLine m root := by
  obtain ⟨-, functionTolerance⟩ := SearchConfig.bounds_of_valid h.valid
  rw [← h.left.at_point] at left
  rw [← h.right.at_point] at right
  refine ⟨rfl, right, left, mem_uIoo_iff.mpr ?_⟩
  have large : 0 < |q.y| := functionTolerance.trans_lt (not_le.mp h.far_right)
  have opposite : q.y * p.y < 0 := h.separates.signs.resolve_left (abs_pos.mp large)
  rw [left, right, mul_mul_mul_comm] at opposite
  have crosses := neg_of_mul_neg_right opposite (mul_self_nonneg m)
  show 0 < (root - q.x) * (p.x - root)
  linarith

/-- A search for the root of a straight line that may interpolate ends within one iteration. -/
theorem search_line (nonzero : m ≠ 0) (between : root ∈ Set.uIcc a b)
    (valid : config.validate = .ok ()) (interpolates : config.bisectionOnly = false)
    (coarse : (ExactConstants.epsilon : K) ≤ 1 / 4) :
    ∃ r, (search config (line m root) a b).outcome = .ok r ∧ r.counters.iterations ≤ 1 := by
  have opposite : m * (a - root) * (m * (b - root)) ≤ 0 := by
    have inside : (a - root) * (b - root) ≤ 0 := by
      rcases Set.mem_uIcc.mp between with ⟨low, high⟩ | ⟨low, high⟩
      · exact mul_nonpos_of_nonpos_of_nonneg (sub_nonpos.mpr low) (sub_nonneg.mpr high)
      · exact mul_nonpos_of_nonneg_of_nonpos (sub_nonneg.mpr high) (sub_nonpos.mpr low)
    rw [mul_mul_mul_comm]
    exact mul_nonpos_of_nonneg_of_nonpos (mul_self_nonneg m) inside
  rcases opens_or_ok (f := line m root) valid rfl rfl opposite with opens | ⟨r, ok, none⟩
  · have settles : ∀ trace t, Reaches config (line m root) a b 1 trace t → t.1.settled config := by
      intro trace t reaches
      obtain ⟨_, s, p, before, unsettled, gives, rfl⟩ := Scheme.Reaches.succ reaches
      obtain rfl := Reaches.unique before opens.reaches
      refine (opens.onLine rfl rfl).settles nonzero valid interpolates coarse unsettled
        gives.at_point ?_
      have answer := gives.answer
      rw [← gives.at_point] at answer
      exact (Except.ok.inj answer).symm
    exact Scheme.ok_within opens.search_eq opens.starts
      (ScalarFunction.gives_of_total fun _ x => ⟨_, rfl⟩) settles
      (Nat.pos_of_ne_zero (SearchConfig.validate_ok_iff.mp valid).2.2)
  · exact ⟨r, ok, none ▸ Nat.zero_le 1⟩

/-- A line with its root nearer to an end than the resolution: the step from there overshoots. -/
theorem search_line_overshoots :
    (search ⟨1 / 10, 0, 1, false⟩ (line 3 (1 / 30 : ℚ)) 0 1).outcome =
        .ok ⟨1 / 20, 1 / 20, ⟨1, 3, 0⟩⟩ ∧
      ∃ r, (search ⟨1 / 10, 0, 1, false⟩ (line 3 (1 / 30 : ℚ)) 0 1).outcome = .ok r ∧
        r.counters.iterations ≤ 1 := by
  refine ⟨Run.ok_of_toOption (by decide +kernel), search_line (by norm_num) ?_ ?_ rfl ?_⟩
  · rw [Set.uIcc_of_le zero_le_one]
    constructor <;> norm_num
  · decide +kernel
  · decide +kernel

end Nonlinear.Root
