import Mathlib
import Nonlinear.Proofs.Newton.Affine
import Nonlinear.Proofs.Newton.Verdict

/-! # Newton's method from the right of a root

Where a function increases and lies above its tangents, the tangent at a point to the right of the
root meets the axis between the two.  So a step, damped or not, ends between the root and the point
it starts from, where the value is no larger.  The slope is the only pivot of its equation, and a
pivot is not small beside itself.  So nothing can go wrong but that the budget is used up.
-/

namespace Nonlinear

open Scalar

section Rise

variable {K : Type} [Field K] [LinearOrder K]

/-- From its root up to the guess a function increases and lies above its tangents. -/
structure ConvexRise (f slope : K → K) (root guess : K) : Prop where
  ordered : root ≤ guess
  zero : f root = 0
  rising : ∀ x ∈ Set.Icc root guess, 0 < slope x
  tangent : ∀ x ∈ Set.Icc root guess, ∀ y ∈ Set.Icc root guess, f x + slope x * (y - x) ≤ f y

namespace ConvexRise

variable [IsStrictOrderedRing K] {f slope : K → K} {root guess x d damping : K}

theorem monotoneOn (h : ConvexRise f slope root guess) : MonotoneOn f (Set.Icc root guess) := by
  intro x hx y hy le
  have up : 0 ≤ slope x * (y - x) := mul_nonneg (h.rising x hx).le (sub_nonneg.mpr le)
  exact (le_add_of_nonneg_right up).trans (h.tangent x hx y hy)

theorem nonneg (h : ConvexRise f slope root guess) (hx : x ∈ Set.Icc root guess) : 0 ≤ f x := by
  rw [← h.zero]
  exact h.monotoneOn (Set.left_mem_Icc.mpr h.ordered) hx hx.1

/-- A damped Newton step goes back, and not beyond the root. -/
theorem add_damped_mem (h : ConvexRise f slope root guess) (hx : x ∈ Set.Icc root guess)
    (solves : slope x * d = -f x) (positive : 0 < damping) (undershoots : damping ≤ 1) :
    x + damping * d ∈ Set.Icc root x := by
  have rising := h.rising x hx
  have back : d ≤ 0 := by
    refine nonpos_of_mul_nonpos_right ?_ rising
    rw [solves]
    exact neg_nonpos.mpr (h.nonneg hx)
  have short : root - x ≤ d := by
    refine le_of_mul_le_mul_left ?_ rising
    have := h.tangent x hx root (Set.left_mem_Icc.mpr h.ordered)
    rw [h.zero] at this
    linarith
  have damped : d ≤ damping * d := by
    have := mul_le_mul_of_nonpos_right undershoots back
    rwa [one_mul] at this
  have := mul_nonpos_of_nonneg_of_nonpos positive.le back
  constructor <;> linarith

end ConvexRise

end Rise

variable {K : Type} [Field K] [LinearOrder K] [ExactConstants K] [IsStrictOrderedRing K]

namespace LuSolver

variable {s : LuSolver K} {a : DenseMatrix K 1 1}

/-- A pivot is not small beside itself. -/
theorem not_singular_single (less : s.pivotTolerance < 1) (nonzero : a.entry 0 0 ≠ 0) :
    ¬ s.singular (Factorization.of a).pivots := by
  have some_row : (Finset.univ : Finset (Fin 1)).Nonempty := Finset.univ_nonempty
  have determinant : a.toMatrix.det ≠ 0 := by
    rw [Matrix.det_fin_one]
    exact nonzero
  have pivot : (Factorization.of a).pivots.get 0 ≠ 0 := by
    intro zero
    rw [Factorization.pivots, DenseMatrix.diagonal, Vector.get_ofFn] at zero
    exact determinant ((Factorization.factors_of a).det_eq_zero_iff.mpr ⟨0, zero⟩)
  have largest_eq : largest (Factorization.of a).pivots some_row =
      |(Factorization.of a).pivots.get 0| := by simp [largest]
  have smallest_eq : smallest (Factorization.of a).pivots some_row =
      |(Factorization.of a).pivots.get 0| := by simp [smallest]
  rw [singular_iff s _ some_row, largest_eq, smallest_eq, Nat.cast_one, mul_one, not_le]
  exact mul_lt_of_lt_one_left (abs_pos.mpr pivot) less

theorem solve_single (nonneg : 0 ≤ s.pivotTolerance) (less : s.pivotTolerance < 1)
    (nonzero : a.entry 0 0 ≠ 0) (b : Vector K 1) :
    ∃ x, s.solve a b = some x ∧ a.entry 0 0 * x.get 0 = b.get 0 := by
  obtain ⟨x, solved, solves⟩ :=
    solve_of_regular nonneg b Finset.univ_nonempty (not_singular_single less nonzero)
  refine ⟨x, solved, ?_⟩
  have row := congrFun solves 0
  rw [Matrix.mulVec, dotProduct, Fin.sum_univ_one] at row
  exact row

end LuSolver

namespace Newton

variable {config : NewtonConfig K} {solver : LuSolver K} {F : VectorFunction K 1}
  {jacobian : JacobianFunction K 1} {f slope : K → K} {root guess : K}

/-- The point that a state has come to, for an equation in one unknown. -/
def State.point {α : Type} (s : State α 1) : α := s.current.x.get 0

/-- The point of a state lies between the root and the guess, and what the state holds beside it is
the value there. -/
structure State.OnRise (f : K → K) (root guess : K) (s : State K 1) : Prop where
  inside : s.point ∈ Set.Icc root guess
  value : s.current.fx = #v[f s.point]
  residual : s.residual = f s.point

section Step

variable (rise : ConvexRise f slope root guess)
  (values : ∀ k x buffer, x.get 0 ∈ Set.Icc root guess → F k x buffer = ⟨#v[f (x.get 0)], none⟩)

include rise values

/-- Whatever damping is tried, the step ends between the root and the point before. -/
theorem takeStep_rise {s : State K 1} (hs : s.OnRise f root guess) {d : Vector K 1}
    (solves : slope s.point * d.get 0 = -f s.point) (counters : Counters) :
    ∃ accepted, (takeStep config F s.current.x d.toArray s.residual s.spare counters :
        Course K 1 (Accepted K 1)).outcome = .ok accepted ∧
      accepted.trial.x.get 0 ∈ Set.Icc root s.point ∧
      accepted.trial.fx = #v[f (accepted.trial.x.get 0)] := by
  refine backtrack_of_trials
    (P := fun trial : Trial K 1 => trial.x.get 0 ∈ Set.Icc root s.point ∧
      trial.fx = #v[f (trial.x.get 0)])
    (D := fun damping => 0 < damping ∧ damping ≤ 1) ?_ ?_ _ ?_ _ _
  · intro damping ⟨positive, undershoots⟩
    norm_num
    exact ⟨positive, by linarith⟩
  · intro k damping trial ⟨positive, undershoots⟩
    have inside := rise.add_damped_mem hs.inside solves positive undershoots
    have coordinate : (Unbuffered.target s.current.x d damping).get 0 =
        s.point + damping * d.get 0 := Vector.get_ofFn ..
    rw [← coordinate] at inside
    have called := values k (Unbuffered.target s.current.x d damping) trial.fx
      ⟨inside.1, inside.2.trans hs.inside.2⟩
    let point := Unbuffered.target s.current.x d damping
    refine ⟨⟨point, #v[f (point.get 0)]⟩, ?_, inside, rfl⟩
    rw [Trial.evaluate, target_toArray, Run.bind_eq,
      Run.bind_of_ok (VectorFunction.call_ok_iff.mpr called)]
    rfl
  · rw [literal_one]
    exact ⟨one_pos, le_rfl⟩

variable [PerfectRoots K] (valid : config.validate = .ok ())
  (low : f guess ≤ config.divergenceThreshold) (nonneg : 0 ≤ solver.pivotTolerance)
  (less : solver.pivotTolerance < 1)
  (slopes : ∀ k x, x.get 0 ∈ Set.Icc root guess →
    jacobian k x (.replicate 0.0) = ⟨#v[#v[slope (x.get 0)]], none⟩)

include valid low nonneg less slopes

/-- An iteration comes through, and leads no further from the root. -/
theorem advance_rise {s : State K 1} (hs : s.OnRise f root guess) :
    ∃ t, (advance config (.lu solver) F (.analytic jacobian) s).outcome = .ok t ∧
      t.OnRise f root guess ∧ t.point ≤ s.point ∧ t.residual ≤ s.residual := by
  obtain ⟨-, -, -, -, window, -⟩ := NewtonConfig.validate_ok_iff.mp valid
  have derived := evaluate_analytic F (slopes (s.counters.jacobianEvaluations + 1) _ hs.inside)
  obtain ⟨d, solved, solves⟩ := LuSolver.solve_single (a := #v[#v[slope s.point]])
    nonneg less (rise.rising _ hs.inside).ne' (s.current.fx.map (-·))
  have right : (s.current.fx.map (-·)).get 0 = -f s.point := by
    rw [hs.value]
    exact Vector.getElem_map _ Nat.one_pos
  rw [right] at solves
  obtain ⟨accepted, taken, inside, value⟩ :=
    takeStep_rise rise values hs solves s.counters.countJacobian
  have inside' : accepted.trial.x.get 0 ∈ Set.Icc root guess :=
    ⟨inside.1, inside.2.trans hs.inside.2⟩
  have residual : config.norm.norm accepted.trial.fx = f (accepted.trial.x.get 0) := by
    rw [value, ResidualNorm.norm_single, abs_of_nonneg (rise.nonneg inside')]
  have lower : f (accepted.trial.x.get 0) ≤ f s.point :=
    rise.monotoneOn inside' hs.inside inside.2
  let t := s.after config #v[#v[slope s.point]] accepted
  have answer : LinearSolver.lu solver (s.counters.iterations + 1)
      #v[#v[slope s.point]] (s.current.fx.map (-·)) = some d.toArray := by
    rw [LinearSolver.lu, solved]
    rfl
  have fine : ¬ t.Blown config := by
    rintro (infinite | above | often)
    · cases infinite
    · have high : t.residual ≤ f guess :=
        residual.le.trans (rise.monotoneOn inside' (Set.right_mem_Icc.mpr rise.ordered) inside'.2)
      exact absurd above (not_lt_of_ge (high.trans low))
    · have none_yet : t.increases = 0 := by
        refine if_neg (not_lt_of_ge ?_)
        rw [residual, hs.residual]
        exact lower
      rw [none_yet] at often
      exact window (Nat.le_zero.mp often)
  refine ⟨t, advance_of_proceeds window (.intro derived answer taken) fine,
    ⟨inside', value, residual⟩, inside.2, ?_⟩
  rw [hs.residual]
  exact residual.le.trans lower

/-- The states that a run passes go steadily down. -/
theorem leads_rise {s t : State K 1} (hs : s.OnRise f root guess) {k : Nat}
    {inner : List (SystemEntry K 1 (Event K))}
    (leads : (loop config (.lu solver) F (.analytic jacobian)).Leads s k inner t) :
    ∃ u : Nat → State K 1, u 0 = s ∧ u k = t ∧ (∀ j ≤ k, (u j).OnRise f root guess) ∧
      ∀ j < k, Proceeds config (.lu solver) F (.analytic jacobian) (u j) (u (j + 1)) ∧
        (u (j + 1)).point ≤ (u j).point ∧ (u (j + 1)).residual ≤ (u j).residual := by
  obtain ⟨-, -, -, -, window, -⟩ := NewtonConfig.validate_ok_iff.mp valid
  obtain ⟨u, begins, ends, between⟩ := leads.states
  have step : ∀ j < k, (u j).OnRise f root guess → (u (j + 1)).OnRise f root guess ∧
      (u (j + 1)).point ≤ (u j).point ∧ (u (j + 1)).residual ≤ (u j).residual := by
    intro j lt hu
    obtain ⟨t, ok, goes⟩ := advance_rise rise values valid low nonneg less slopes hu
    obtain rfl : t = u (j + 1) := Except.ok.inj (ok.symm.trans (between j lt).2)
    exact goes
  have onRise : ∀ j ≤ k, (u j).OnRise f root guess := by
    intro j
    induction j with
    | zero => exact fun _ => begins ▸ hs
    | succ j ih => exact fun lt => (step j lt (ih (Nat.le_of_lt lt))).1
  exact ⟨u, begins, ends, onRise, fun j lt =>
    ⟨(advance_ok window (between j lt).2).1, (step j lt (onRise j (Nat.le_of_lt lt))).2⟩⟩

/-- From the right of the root of a convex increasing function Newton's method goes steadily down
towards it, with and without line search, until the norm is small enough or the budget is used
up. -/
theorem solve_convex :
    let outcome := (solve config (.lu solver) F (.analytic jacobian) #v[guess]).outcome
    ∃ s k, Trajectory config (.lu solver) F (.analytic jacobian) #v[guess] s k ∧
      k ≤ config.maxIterations ∧
      (∀ j ≤ k, (s j).point ∈ Set.Icc root guess ∧ (s j).residual = f (s j).point) ∧
      (∀ j < k, (s (j + 1)).point ≤ (s j).point ∧ (s (j + 1)).residual ≤ (s j).residual) ∧
      (outcome = .ok ⟨(s k).current.x, (s k).current.fx, (s k).counters⟩ ∨
        k = config.maxIterations ∧ outcome = .error (.iterationLimit config.maxIterations)) := by
  intro outcome
  have at_guess : guess ∈ Set.Icc root guess := Set.right_mem_Icc.mpr rise.ordered
  have first : F 1 #v[guess] (Vector.replicate 1 0.0) = ⟨#v[f guess], none⟩ :=
    values 1 #v[guess] _ at_guess
  have start : (State.start config #v[guess] #v[f guess]).OnRise f root guess := by
    refine ⟨at_guess, rfl, ?_⟩
    show config.norm.norm #v[f guess] = f guess
    rw [ResidualNorm.norm_single, abs_of_nonneg (rise.nonneg at_guess)]
  obtain ⟨k, inner, t, _, leads, ends, eq⟩ :=
    (loop config (.lu solver) F (.analytic jacobian)).run_ends config.maxIterations
      (.start config #v[guess] #v[f guess])
  obtain ⟨s, begins, rfl, onRise, steps⟩ :=
    leads_rise rise values valid low nonneg less slopes start leads
  refine ⟨s, k, ⟨?_, fun j lt => (steps j lt).1⟩, ends.le,
    fun j le => ⟨(onRise j le).inside, (onRise j le).residual⟩, fun j lt => (steps j lt).2, ?_⟩
  · rw [begins, first]
  have runs : outcome = _ := congrArg Run.outcome
    (solve_eq_run Nat.one_ne_zero valid first (all_isFinite_exact _))
  rw [Run.after_outcome, eq, Run.after_outcome] at runs
  rw [runs]
  cases ends with
  | finished => exact .inl rfl
  | exhausted => exact .inr ⟨rfl, rfl⟩
  | failed _ _ failed =>
      obtain ⟨t, ok, -⟩ :=
        advance_rise rise values valid low nonneg less slopes (onRise k le_rfl)
      cases failed.symm.trans ok

end Step

/-- The square root of one, from two and with a large pivot tolerance. -/
theorem solve_convex_square :
    let f : ℚ → ℚ := fun x => x * x - 1
    let F : VectorFunction ℚ 1 := fun _ x _ => ⟨#v[f (x.get 0)], none⟩
    let jacobian : JacobianFunction ℚ 1 := fun _ x _ => ⟨#v[#v[2 * x.get 0]], none⟩
    let solver : LuSolver ℚ := ⟨1 / 2⟩
    let config : NewtonConfig ℚ :=
      { NewtonConfig.standard with tolerance := 1 / 1000, lineSearch := true, norm := .euclidean }
    let outcome := (solve config (.lu solver) F (.analytic jacobian) #v[2]).outcome
    outcome = .ok ⟨#v[3281 / 3280], #v[6561 / 10758400], ⟨3, 4, 3⟩⟩ ∧
      ∃ s k, Trajectory config (.lu solver) F (.analytic jacobian) #v[2] s k ∧
        (∀ j ≤ k, (s j).point ∈ Set.Icc (1 : ℚ) 2) ∧
        (∀ j < k, (s (j + 1)).residual ≤ (s j).residual) ∧
        outcome = .ok ⟨(s k).current.x, (s k).current.fx, (s k).counters⟩ := by
  intro f F jacobian solver config outcome
  have rise : ConvexRise f (fun x => 2 * x) 1 2 := by
    refine ⟨one_le_two, by norm_num [f], fun x hx => by linarith [hx.1], fun x _ y _ => ?_⟩
    have square : x * x - 1 + 2 * x * (y - x) = y * y - 1 - (y - x) ^ 2 := by ring
    show x * x - 1 + 2 * x * (y - x) ≤ y * y - 1
    rw [square]
    exact sub_le_self _ (sq_nonneg _)
  have valid : config.validate = .ok () := by decide +kernel
  have low : f 2 ≤ config.divergenceThreshold := by decide +kernel
  have ok : outcome = .ok ⟨#v[3281 / 3280], #v[6561 / 10758400], ⟨3, 4, 3⟩⟩ :=
    Run.ok_of_toOption (by decide +kernel)
  have values : ∀ k (x buffer : Vector ℚ 1), x.get 0 ∈ Set.Icc (1 : ℚ) 2 →
      F k x buffer = ⟨#v[f (x.get 0)], none⟩ := fun _ _ _ _ => rfl
  have slopes : ∀ k (x : Vector ℚ 1), x.get 0 ∈ Set.Icc (1 : ℚ) 2 →
      jacobian k x (.replicate 0.0) = ⟨#v[#v[2 * x.get 0]], none⟩ := fun _ _ _ => rfl
  have nonneg : 0 ≤ solver.pivotTolerance := one_half_pos.le
  obtain ⟨s, k, trajectory, -, inside, falls, ended⟩ :=
    solve_convex rise values valid low nonneg one_half_lt_one slopes
  refine ⟨ok, s, k, trajectory, fun j le => (inside j le).1, fun j lt => (falls j lt).2, ?_⟩
  rcases ended with ended | ⟨-, limit⟩
  · exact ended
  · cases ok.symm.trans limit

end Newton

end Nonlinear
