import Nonlinear.Proofs.Config
import Nonlinear.Proofs.FloatingPoint.Order
import Nonlinear.Proofs.Newton.Course
import Nonlinear.Proofs.ResidualNorm

/-! # How Newton's method ends

The states of a run are those of accepted steps alone.  Where the run stops, and with which
answer, is read off the residual norms along them.
-/

namespace Nonlinear.Newton

open Scalar

variable {α : Type} [Scalar α] {n : Nat}

/-- The first `k` accepted steps from a guess. -/
structure Trajectory (config : NewtonConfig α) (linear : LinearSolver α n)
    (f : VectorFunction α n) (derivative : Derivative α n) (guess : Vector α n)
    (s : Nat → State α n) (k : Nat) : Prop where
  start : s 0 = .start config guess (f 1 guess (Vector.replicate n 0.0)).contents
  next : ∀ j < k, Proceeds config linear f derivative (s j) (s (j + 1))

/-- Each of the last `m` steps up to the `k`-th has increased the norm. -/
def Rising (r : Nat → α) (k m : Nat) : Prop := m ≤ k ∧ ∀ j < k, k ≤ j + m → r j < r (j + 1)

instance (r : Nat → α) (k m : Nat) : Decidable (Rising r k m) := by
  unfold Rising; infer_instance

/-- The norms up to the `k`-th show divergence. -/
def Diverges (config : NewtonConfig α) (r : Nat → α) (k : Nat) : Prop :=
  1 ≤ k ∧ (isFinite (r k) = false ∨ config.divergenceThreshold < r k ∨
    Rising r k config.divergenceWindow)

instance (config : NewtonConfig α) (r : Nat → α) (k : Nat) : Decidable (Diverges config r k) := by
  unfold Diverges; infer_instance

/-- The answer with which a run stops after `k` steps, if it does. -/
def verdict (config : NewtonConfig α) (linear : LinearSolver α n) (f : VectorFunction α n)
    (derivative : Derivative α n) (s : Nat → State α n) (k : Nat) :
    Option (Except (Failure α) (Solution (Vector α n))) :=
  if Diverges config (fun j => (s j).residual) k then some (.error (.divergence k (s k).residual))
  else if (s k).residual < config.tolerance then
    some (.ok ⟨(s k).current.x, (s k).current.fx, (s k).counters⟩)
  else if k = config.maxIterations then some (.error (.iterationLimit config.maxIterations))
  else match (derivative.evaluate f (s k)).outcome with
    | .error e => some (.error e)
    | .ok (a, _) =>
      match linear (k + 1) a ((s k).current.fx.map (-·)) with
      | none => some (.error (.singularJacobian k))
      | some _ => none

theorem rising_zero (r : Nat → α) (k : Nat) : Rising r k 0 :=
  ⟨Nat.zero_le k, fun j lt le => absurd lt (by omega)⟩

theorem rising_succ {r : Nat → α} {k m : Nat} :
    Rising r (k + 1) (m + 1) ↔ r k < r (k + 1) ∧ Rising r k m := by
  constructor
  · intro ⟨le, up⟩
    exact ⟨up k (by omega) (by omega), by omega, fun j lt reach => up j (by omega) (by omega)⟩
  · intro ⟨last, le, up⟩
    refine ⟨by omega, fun j lt reach => ?_⟩
    rcases Nat.lt_succ_iff_lt_or_eq.mp lt with lt | rfl
    · exact up j lt (by omega)
    · exact last

variable {config : NewtonConfig α} {linear : LinearSolver α n} {f : VectorFunction α n}
  {derivative : Derivative α n} {guess : Vector α n} {s : Nat → State α n} {k : Nat}

namespace Trajectory

theorem counted (h : Trajectory config linear f derivative guess s k) {j : Nat} (le : j ≤ k) :
    (s j).counters.iterations = j := by
  induction j with
  | zero =>
      rw [h.start]
      rfl
  | succ j ih => rw [(h.next j le).counted.1, ih (Nat.le_of_succ_le le)]

theorem residual_eq (h : Trajectory config linear f derivative guess s k) {j : Nat}
    (le : j ≤ k) : (s j).residual = config.norm.norm (s j).current.fx := by
  cases j with
  | zero =>
      rw [h.start]
      rfl
  | succ j => exact (h.next j le).counted.2.2

/-- The counter of increases says how long the norm has been rising. -/
theorem increases_iff (h : Trajectory config linear f derivative guess s k) {j : Nat}
    (le : j ≤ k) (m : Nat) : m ≤ (s j).increases ↔ Rising (fun j => (s j).residual) j m := by
  induction j generalizing m with
  | zero =>
      rw [h.start]
      constructor
      · intro none_yet
        rw [Nat.le_zero.mp none_yet]
        exact rising_zero _ _
      · exact fun rising => rising.1
  | succ j ih =>
      cases m with
      | zero => exact ⟨fun _ => rising_zero _ _, fun _ => Nat.zero_le _⟩
      | succ m =>
          rw [rising_succ, ← ih (Nat.le_of_succ_le le), (h.next j le).increases_eq]
          split
          · rename_i up
            exact ⟨fun le => ⟨up, Nat.le_of_succ_le_succ le⟩, fun both => Nat.succ_le_succ both.2⟩
          · rename_i down
            exact ⟨fun le => absurd le (Nat.not_succ_le_zero m), fun both => absurd both.1 down⟩

theorem shorter (h : Trajectory config linear f derivative guess s k) {j : Nat} (le : j ≤ k) :
    Trajectory config linear f derivative guess s j :=
  ⟨h.start, fun i lt => h.next i (Nat.lt_of_lt_of_le lt le)⟩

theorem diverges_iff (h : Trajectory config linear f derivative guess s k) {j : Nat}
    (le : j ≤ k) : Diverges config (fun j => (s j).residual) j ↔ 1 ≤ j ∧ (s j).Blown config := by
  rw [Diverges, State.Blown, h.increases_iff le]

variable [LawfulScalar α]

/-- The norms of a run do not show divergence where the last one is small: the one before
would have been small as well. -/
theorem not_diverges_of_small (h : Trajectory config linear f derivative guess s k)
    (valid : config.validate = .ok ()) (before : ∀ j < k, ¬ (s j).residual < config.tolerance)
    (small : (s k).residual < config.tolerance) :
    ¬ Diverges config (fun j => (s j).residual) k := by
  obtain ⟨⟨-, finite⟩, -, -, -, window, threshold⟩ := NewtonConfig.validate_ok_iff.mp valid
  rintro ⟨pos, infinite | above | rising⟩
  · dsimp only at infinite
    rw [h.residual_eq (Nat.le_refl k)] at infinite small
    exact ResidualNorm.not_lt_of_not_finite infinite finite small
  · exact not_lt_of_lt above (lt_trans small threshold)
  · obtain ⟨j, rfl⟩ := Nat.exists_eq_add_of_le' pos
    have up : (s j).residual < (s (j + 1)).residual := rising.2 j (by omega) (by omega)
    exact before j (Nat.lt_succ_self j) (lt_trans up small)

end Trajectory

section Verdict

theorem verdict_of_diverges (h : Diverges config (fun j => (s j).residual) k) :
    verdict config linear f derivative s k = some (.error (.divergence k (s k).residual)) :=
  if_pos h

theorem verdict_of_small (fine : ¬ Diverges config (fun j => (s j).residual) k)
    (small : (s k).residual < config.tolerance) :
    verdict config linear f derivative s k =
      some (.ok ⟨(s k).current.x, (s k).current.fx, (s k).counters⟩) := by
  rw [verdict, if_neg fine, if_pos small]

theorem verdict_of_limit (fine : ¬ Diverges config (fun j => (s j).residual) k)
    (large : ¬ (s k).residual < config.tolerance) (last : k = config.maxIterations) :
    verdict config linear f derivative s k =
      some (.error (.iterationLimit config.maxIterations)) := by
  rw [verdict, if_neg fine, if_neg large, if_pos last]

theorem verdict_of_error {e : Failure α}
    (fine : ¬ Diverges config (fun j => (s j).residual) k)
    (large : ¬ (s k).residual < config.tolerance) (more : k ≠ config.maxIterations)
    (failed : (derivative.evaluate f (s k)).outcome = .error e) :
    verdict config linear f derivative s k = some (.error e) := by
  rw [verdict, if_neg fine, if_neg large, if_neg more, failed]

theorem verdict_of_none {a : DenseMatrix α n n} {counters : Counters}
    (fine : ¬ Diverges config (fun j => (s j).residual) k)
    (large : ¬ (s k).residual < config.tolerance) (more : k ≠ config.maxIterations)
    (derived : (derivative.evaluate f (s k)).outcome = .ok (a, counters))
    (solved : linear (k + 1) a ((s k).current.fx.map (-·)) = none) :
    verdict config linear f derivative s k = some (.error (.singularJacobian k)) := by
  rw [verdict, if_neg fine, if_neg large, if_neg more, derived]
  dsimp only
  rw [solved]

theorem verdict_of_proceeds {t : State α n}
    (fine : ¬ Diverges config (fun j => (s j).residual) k)
    (large : ¬ (s k).residual < config.tolerance) (more : k ≠ config.maxIterations)
    (counted : (s k).counters.iterations = k)
    (proceeds : Proceeds config linear f derivative (s k) t) :
    verdict config linear f derivative s k = none := by
  cases proceeds with
  | intro derived solved _ =>
      rw [counted] at solved
      rw [verdict, if_neg fine, if_neg large, if_neg more, derived]
      dsimp only
      rw [solved]

/-- A run answers divergence only where its norms show it. -/
theorem diverges_of_verdict {i : Nat} {r : α}
    (h : verdict config linear f derivative s k = some (.error (.divergence i r))) :
    Diverges config (fun j => (s j).residual) k ∧ (s k).residual = r := by
  unfold verdict at h
  split at h
  · cases h
    exact ⟨‹_›, rfl⟩
  · split at h
    · cases h
    · split at h
      · cases h
      · split at h
        · rename_i failed
          cases h
          rcases Derivative.evaluate_error failed with ⟨_, same⟩ | ⟨_, same⟩ <;> cases same
        · split at h <;> cases h

end Verdict

/-- A trajectory with no reason to stop before its last state. -/
structure Underway (config : NewtonConfig α) (linear : LinearSolver α n)
    (f : VectorFunction α n) (derivative : Derivative α n) (guess : Vector α n)
    (s : Nat → State α n) (k : Nat) : Prop
    extends Trajectory config linear f derivative guess s k where
  large : ∀ j < k, ¬ (s j).residual < config.tolerance
  calm : ∀ j < k, 1 ≤ j → ¬ (s j).Blown config

namespace Underway

theorem verdict_none (h : Underway config linear f derivative guess s k)
    (budget : k ≤ config.maxIterations) {j : Nat} (lt : j < k) :
    verdict config linear f derivative s j = none := by
  have le := Nat.le_of_lt lt
  refine verdict_of_proceeds ?_ (h.large j lt) (by omega) (h.counted le) (h.next j lt)
  rw [h.diverges_iff le]
  exact fun both => h.calm j lt both.1 both.2

theorem extend (h : Underway config linear f derivative guess s k) {t : State α n}
    (large : ¬ (s k).residual < config.tolerance) (calm : 1 ≤ k → ¬ (s k).Blown config)
    (step : Proceeds config linear f derivative (s k) t) :
    ∃ u, Underway config linear f derivative guess u (k + 1) ∧ u (k + 1) = t := by
  have same : ∀ j ≤ k, (if j ≤ k then s j else t) = s j := fun j le => if_pos le
  have last : (if k + 1 ≤ k then s (k + 1) else t) = t := if_neg (Nat.not_succ_le_self k)
  refine ⟨fun j => if j ≤ k then s j else t, ⟨⟨h.start, ?_⟩, ?_, ?_⟩, last⟩
  · intro j lt
    rcases Nat.lt_succ_iff_lt_or_eq.mp lt with lt | rfl
    · rw [same j (Nat.le_of_lt lt), same (j + 1) lt]
      exact h.next j lt
    · rw [same j (Nat.le_refl j), last]
      exact step
  · intro j lt
    rw [same j (Nat.le_of_lt_succ lt)]
    rcases Nat.lt_succ_iff_lt_or_eq.mp lt with lt | rfl
    · exact h.large j lt
    · exact large
  · intro j lt
    rw [same j (Nat.le_of_lt_succ lt)]
    rcases Nat.lt_succ_iff_lt_or_eq.mp lt with lt | rfl
    · exact h.calm j lt
    · exact calm

end Underway

/-- The loop only passes states that give no reason to stop. -/
theorem underway_of_leads {fx : Vector α n} {inner : List (SystemEntry α n (Event α))}
    {t : State α n} (window : config.divergenceWindow ≠ 0)
    (first : f 1 guess (Vector.replicate n 0.0) = ⟨fx, none⟩)
    (leads : (loop config linear f derivative).Leads (.start config guess fx) k inner t) :
    ∃ s, Underway config linear f derivative guess s k ∧ s k = t ∧
      (1 ≤ k → ¬ t.Blown config) := by
  obtain ⟨s, start, rfl, between⟩ := leads.states
  have steps : ∀ j < k, Proceeds config linear f derivative (s j) (s (j + 1)) ∧
      ¬ (s (j + 1)).Blown config := fun j lt => advance_ok window (between j lt).2
  have calm : ∀ j ≤ k, 1 ≤ j → ¬ (s j).Blown config := by
    intro j le pos
    obtain ⟨i, rfl⟩ := Nat.exists_eq_add_of_le' pos
    exact (steps i le).2
  refine ⟨s, ⟨⟨?_, fun j lt => (steps j lt).1⟩, fun j lt => (between j lt).1,
    fun j lt => calm j (Nat.le_of_lt lt)⟩, rfl, calm k (Nat.le_refl k)⟩
  rw [start, first]

/-- A run stops at the first state with a verdict, and with that answer. -/
theorem solve_stops (nonempty : n ≠ 0) (valid : config.validate = .ok ())
    (answered : Answered (solve config linear f derivative guess).trace)
    (finite : (f 1 guess (Vector.replicate n 0.0)).contents.all isFinite = true) :
    ∃ s k, Underway config linear f derivative guess s k ∧ k ≤ config.maxIterations ∧
      verdict config linear f derivative s k =
        some (solve config linear f derivative guess).outcome := by
  obtain ⟨-, -, -, -, window, -⟩ := NewtonConfig.validate_ok_iff.mp valid
  obtain ⟨fx, first⟩ := first_of_answered nonempty valid answered
  rw [first] at finite
  rw [solve_eq_run nonempty valid first finite] at answered ⊢
  obtain ⟨k, inner, t, last, leads, ends, eq⟩ :=
    (loop config linear f derivative).run_ends config.maxIterations (.start config guess fx)
  rw [eq, Run.after_trace, Run.after_trace, answered_append, answered_append] at answered
  rw [Run.after_outcome, eq, Run.after_outcome]
  obtain ⟨s, underway, rfl, calm⟩ := underway_of_leads window first leads
  have fine : ¬ Diverges config (fun j => (s j).residual) k := by
    rw [underway.diverges_iff (Nat.le_refl k)]
    exact fun both => calm both.1 both.2
  cases ends with
  | finished le small => exact ⟨s, k, underway, le, verdict_of_small fine small⟩
  | exhausted large =>
      exact ⟨s, _, underway, Nat.le_refl _, verdict_of_limit fine large rfl⟩
  | failed lt large failed =>
      have more : k ≠ config.maxIterations := Nat.ne_of_lt lt
      have counted := underway.counted (Nat.le_refl k)
      rcases advance_error window answered.2.2 failed with
        failed | ⟨a, counters, derived, solved, rfl⟩ | ⟨t, step, blown, rfl⟩
      · exact ⟨s, k, underway, Nat.le_of_lt lt, verdict_of_error fine large more failed⟩
      · rw [counted] at solved ⊢
        exact ⟨s, k, underway, Nat.le_of_lt lt,
          verdict_of_none fine large more derived solved⟩
      · -- the verdict is about a state that the loop does not come to
        obtain ⟨u, longer, rfl⟩ := underway.extend large calm step
        refine ⟨u, k + 1, longer, lt, ?_⟩
        rw [longer.counted (Nat.le_refl (k + 1))]
        refine verdict_of_diverges ?_
        rw [longer.diverges_iff (Nat.le_refl (k + 1))]
        exact ⟨Nat.succ_pos k, blown⟩

variable [LawfulScalar α]

/-- Newton's method stops at the first state with a verdict and answers it. -/
theorem solve_verdict (nonempty : n ≠ 0) (valid : config.validate = .ok ())
    {F : Nat → Vector α n → Vector α n}
    (overwrites : ∀ k x buffer, (f k x buffer).contents = F k x)
    (answered : Answered (solve config linear f derivative guess).trace)
    (finite : (F 1 guess).all isFinite = true) :
    ∃ s k, Trajectory config linear f derivative guess s k ∧
      (∀ j ≤ k, (s j).counters.iterations = j ∧
        (s j).current.fx = F (s j).counters.functionEvaluations (s j).current.x ∧
        (s j).residual = config.norm.norm (s j).current.fx) ∧
      (∀ j < k, verdict config linear f derivative s j = none) ∧
      verdict config linear f derivative s k =
        some (solve config linear f derivative guess).outcome ∧
      (∀ j ≤ k, ¬ (Diverges config (fun j => (s j).residual) j ∧
        (s j).residual < config.tolerance)) ∧
      ∀ i r, (solve config linear f derivative guess).outcome = .error (.divergence i r) →
        ¬ r < config.tolerance := by
  have first : (f 1 guess (Vector.replicate n 0.0)).contents = F 1 guess := overwrites _ _ _
  obtain ⟨s, k, underway, budget, here⟩ :=
    solve_stops nonempty valid answered (by rwa [first])
  have trajectory := underway.toTrajectory
  have exclusive : ∀ j ≤ k, ¬ (Diverges config (fun j => (s j).residual) j ∧
      (s j).residual < config.tolerance) := by
    intro j le ⟨diverges, small⟩
    exact (trajectory.shorter le).not_diverges_of_small valid
      (fun i lt => underway.large i (Nat.lt_of_lt_of_le lt le)) small diverges
  refine ⟨s, k, trajectory, fun j le => ?_, fun j lt => underway.verdict_none budget lt, here,
    exclusive, ?_⟩
  · refine ⟨trajectory.counted le, ?_, trajectory.residual_eq le⟩
    cases j with
    | zero =>
        rw [trajectory.start, first]
        rfl
    | succ j =>
        obtain ⟨-, ⟨buffer, evaluated⟩, -⟩ := (trajectory.next j le).counted
        rw [← overwrites _ _ buffer, evaluated]
  · intro i r outcome small
    rw [outcome] at here
    obtain ⟨diverges, rfl⟩ := diverges_of_verdict here
    exact exclusive k (Nat.le_refl k) ⟨diverges, small⟩

/-- The residual `F(x) = x`. -/
def identity : VectorFunction α n := fun _ x _ => ⟨x, none⟩

/-- In doubles the zero of the identity is found in one step. -/
theorem solve_verdict_identity :
    (solve .standard .diagonal identity (.analytic fun _ _ _ => ⟨.replicate 1.0, none⟩)
      #v[(3.0 : Float)]).outcome = .ok ⟨#v[0.0], #v[0.0], ⟨1, 2, 1⟩⟩ ∧
    ∃ s k, verdict .standard .diagonal identity
      (.analytic fun _ _ _ => ⟨.replicate 1.0, none⟩) s k =
        some (.ok ⟨#v[(0.0 : Float)], #v[0.0], ⟨1, 2, 1⟩⟩) := by
  have outcome : (solve .standard .diagonal identity
      (.analytic fun _ _ _ => ⟨.replicate 1.0, none⟩) #v[(3.0 : Float)]).outcome =
        .ok ⟨#v[0.0], #v[0.0], ⟨1, 2, 1⟩⟩ := Run.ok_of_toOption (by decide +kernel)
  obtain ⟨s, k, -, -, -, stops, -, -⟩ := solve_verdict (n := 1) (α := Float)
    (F := fun _ x => x) Nat.one_ne_zero (by decide +kernel) (fun _ _ _ => rfl)
    (show Answered (solve .standard .diagonal identity
      (.analytic fun _ _ _ => ⟨.replicate 1.0, none⟩) #v[(3.0 : Float)]).trace by decide +kernel)
    (by decide +kernel)
  rw [outcome] at stops
  exact ⟨outcome, s, k, stops⟩

end Nonlinear.Newton
