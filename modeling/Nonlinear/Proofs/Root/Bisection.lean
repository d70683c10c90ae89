import Mathlib
import Nonlinear.Proofs.Root.Narrowing
import Nonlinear.Proofs.Root.SignChange

/-! # Pure bisection

A search that takes no interpolated steps asks for the middle of its bracket.  Half of a bracket
that is not settled is longer than the resolution, so this step is never lengthened, and what is
left is one half of the bracket, whatever value the function gives there.  How often a bracket has
to be halved until it is settled is known before the search begins.
-/

namespace Nonlinear.Root

open Scalar

variable {K : Type} [Field K] [LinearOrder K] [ExactConstants K] [IsStrictOrderedRing K]
  {config : SearchConfig K} {f : ScalarFunction K} {a b : K}

namespace Bracket

variable {s : Bracket K}

theorem target_of_bisectionOnly (only : config.bisectionOnly = true)
    (unsettled : ¬ s.settled config) :
    s.target config = s.keepBest.best.x + s.keepBest.width / 2 := by
  have move : (s.move config).2 = s.keepBest.width / 2 := by
    have two : (2.0 : K) = 2 := by norm_num
    rw [move, propose, if_pos (.inl only), ← two]
  obtain ⟨wide, -⟩ := unsettled_iff.mp unsettled
  have long : s.keepBest.resolution config.tolerance ≤ |s.keepBest.width / 2| := by
    rw [abs_div, abs_two]
    exact wide.le
  rw [target, move, lengthen_of_long long]

/-- The middle of a bracket leaves half of it, on this side or the other. -/
theorem abs_width_advance {p : Sample K} (middle : p.x = s.best.x + s.width / 2) :
    |(s.advance p).width| = |s.width| / 2 := by
  rw [← abs_two, ← abs_div, advance_exact]
  split
  · show |s.best.x - p.x| = |s.width / 2|
    rw [middle, sub_add_cancel_left, abs_neg]
  · show |s.counter.x - p.x| = |s.width / 2|
    have rest : s.counter.x - p.x = s.width / 2 := by
      rw [middle, width_exact]
      ring
    rw [rest]

end Bracket

/-- By induction on the iterations, each of which leaves half of the bracket before. -/
theorem Reaches.abs_width (only : config.bisectionOnly = true) {k : Nat}
    {trace : List (SearchEntry K (Event K))} {t : Bracket K × Counters}
    (h : Reaches config f a b k trace t) : |t.1.width| = |b - a| / 2 ^ k := by
  induction k generalizing trace t with
  | zero =>
      rw [pow_zero, div_one]
      exact h.begins.1
  | succ k ih =>
      obtain ⟨_, s, p, before, unsettled, gives, rfl⟩ := Scheme.Reaches.succ h
      have middle : p.x = s.1.keepBest.best.x + s.1.keepBest.width / 2 :=
        gives.at_point.trans (Bracket.target_of_bisectionOnly only unsettled)
      calc |(s.1.keepBest.advance p).width| = |s.1.keepBest.width| / 2 :=
            Bracket.abs_width_advance middle
        _ = |b - a| / 2 ^ k / 2 := by rw [Bracket.abs_width_keepBest, ih before]
        _ = |b - a| / 2 ^ (k + 1) := by rw [div_div, pow_succ]

/-- Half of a bracket that is no wider than the tolerance is within the resolution. -/
theorem settled_of_abs_width_le {s : Bracket K} (narrow : |s.width| ≤ config.tolerance) :
    s.settled config := by
  by_contra unsettled
  obtain ⟨wide, -⟩ := unsettled_iff.mp unsettled
  rw [Bracket.abs_width_keepBest, Bracket.resolution_exact] at wide
  have rounding : 0 ≤ 2 * (ExactConstants.epsilon : K) * |s.keepBest.best.x| :=
    mul_nonneg (mul_nonneg zero_le_two ExactConstants.epsilon_nonneg) (abs_nonneg _)
  linarith

/-- Without interpolation every iteration leaves exactly half of the bracket to go on from.  So if
`N` halvings bring it down to the tolerance and the budget allows for them, the search succeeds in
at most `N` iterations, for any function with a change of sign. -/
theorem search_bisects {fa fb : K} (valid : config.validate = .ok ())
    (only : config.bisectionOnly = true) (total : ∀ k x, ∃ y, f k x = .ok y)
    (left : f 1 a = .ok fa) (right : f 2 b = .ok fb)
    (large_left : config.functionTolerance < |fa|) (large_right : config.functionTolerance < |fb|)
    (opposite : fa * fb < 0) :
    (∀ k s, HoldsAfter config f a b k s →
      ContinuesFrom config f a b k s ∧ |s.width| = |b - a| / 2 ^ k) ∧
    ∀ N, |b - a| ≤ 2 ^ N * config.tolerance → max N 1 ≤ config.maxIterations →
      ∃ r, (search config f a b).outcome = .ok r ∧ r.counters.iterations ≤ N := by
  constructor
  · intro k s holds
    refine ⟨((search_passes config f a b k).1 s holds).1, ?_⟩
    obtain ⟨trace, t, reaches, rfl⟩ := holds
    rw [Bracket.abs_width_keepBest]
    exact Reaches.abs_width only reaches
  · intro N scale budget
    have opens := opens_of_opposite valid left right large_left large_right opposite
    have settles (trace) (t : Bracket K × Counters) (reaches : Reaches config f a b N trace t) :
        t.1.settled config := by
      refine settled_of_abs_width_le ?_
      rw [Reaches.abs_width only reaches, div_le_iff₀ (by positivity), mul_comm]
      exact scale
    obtain ⟨r, ok, few⟩ := Scheme.ok_within opens.search_eq opens.starts
      (ScalarFunction.gives_of_total total) settles ((le_max_left N 1).trans budget)
    exact ⟨r, ok, few.trans_eq (Nat.zero_add N)⟩

/-- Three halvings of the unit interval bring it down to an eighth, around a jump. -/
theorem search_bisects_jump :
    (∃ s, HoldsAfter ⟨1 / 8, 0, 3, true⟩ (jump (1 / 3 : ℚ)) 0 1 2 s ∧
      ContinuesFrom ⟨1 / 8, 0, 3, true⟩ (jump (1 / 3 : ℚ)) 0 1 2 s ∧
        |s.width| = |1 - 0| / 2 ^ 2) ∧
    ∃ r, (search ⟨1 / 8, 0, 3, true⟩ (jump (1 / 3 : ℚ)) 0 1).outcome = .ok r ∧
      r.counters.iterations ≤ 3 := by
  let f := jump (1 / 3 : ℚ)
  have valid : SearchConfig.validate ⟨(1 / 8 : ℚ), 0, 3, true⟩ = .ok () := by decide +kernel
  have left : f 1 0 = .ok (-1) := by norm_num [f, jump]
  have right : f 2 1 = .ok 1 := by norm_num [f, jump]
  have total (k : Nat) (x : ℚ) : ∃ y, f k x = .ok y := ⟨_, rfl⟩
  have bisects := search_bisects valid rfl total left right
    (by norm_num) (by norm_num) (by norm_num)
  have opens := opens_of_opposite valid left right (by norm_num) (by norm_num) (by norm_num)
  let loop := (scheme ⟨(1 / 8 : ℚ), 0, 3, true⟩).loop f 3
  have goes_on : (loop.stateAfter 2 (opening ⟨0, -1⟩ ⟨1, 1⟩)).isSome = true := by decide +kernel
  obtain ⟨t, at_t⟩ := Option.isSome_iff_exists.mp goes_on
  obtain ⟨_, reaches⟩ := Scheme.reaches_of_stateAfter opens.starts (by decide : 2 ≤ 3) at_t
  have holds : HoldsAfter ⟨1 / 8, 0, 3, true⟩ f 0 1 2 t.1.keepBest := ⟨_, t, reaches, rfl⟩
  exact ⟨⟨_, holds, bisects.1 2 _ holds⟩, bisects.2 3 (by norm_num) (by decide)⟩

end Nonlinear.Root
