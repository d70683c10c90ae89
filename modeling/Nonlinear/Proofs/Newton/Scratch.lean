import Mathlib
import Nonlinear.Proofs.Newton.Unbuffered
import Nonlinear.Proofs.Newton.Course
import Nonlinear.Proofs.Simulation

/-! # Scratch buffers cannot be seen

Newton's method swaps the buffers of its points and fills one matrix again and again.  When the
residual overwrites all of its buffer and the linear solver gives a step for every component,
the course of the method is that of the method without buffers, call for call.
-/

namespace Nonlinear.Newton

open Scalar Run

variable {α : Type} {n : Nat}

/-- On success the residual leaves these values, and a failure does not depend on the buffer. -/
def Overwrites (f : VectorFunction α n) (F : Unbuffered.Values α n) : Prop :=
  ∀ k x buffer, (f k x buffer).said = F k x

theorem reported_said {β : Type} (w : Written β) :
    Unbuffered.reported (α := α) w.said = w.outcome := by
  obtain ⟨contents, error⟩ := w
  cases error with
  | none => rfl
  | some e => rfl

theorem fill_eq_replicate (x : α) (a : DenseMatrix α n n) :
    a.fill x = DenseMatrix.replicate x := by
  ext i hi j hj
  simp [DenseMatrix.fill, DenseMatrix.replicate]

variable [Scalar α]

/-- What is left of a state when its buffers are forgotten. -/
def State.iterate (s : State α n) : Unbuffered.Iterate α n where
  x := s.current.x
  fx := s.current.fx
  residual := s.residual
  increases := s.increases
  counters := s.counters

/-- The Jacobian is written into zeros. -/
def Derivative.slopes : Derivative α n → Unbuffered.Slopes α n
  | analytic jacobian => .analytic fun k x => (jacobian k x (.replicate 0.0)).said
  | differences => .differences

/-- A course with buffers looks like one without. -/
abbrev Looks {β β' : Type} (related : β → β' → Prop) (r : Course α n β)
    (r' : Unbuffered.Course α n β') : Prop :=
  Simulates SystemEntry.observe related r r'

variable {f : VectorFunction α n} {F : Unbuffered.Values α n}

omit [Scalar α] in
theorem call_looks (overwrites : Overwrites f F) (k : Nat) (x buffer : Vector α n) :
    Looks Eq (f.call k x buffer) (Unbuffered.call F k x) := by
  have said : (f k x buffer).said = F k x := overwrites k x buffer
  constructor
  · show [Observation.residual x (f k x buffer).said] = [.residual x (F k x)]
    rw [said]
  · show Alike Eq (f k x buffer).outcome (Unbuffered.reported (F k x))
    rw [← said, reported_said]
    exact .of_eq _

section Differences

variable {x fx : Vector α n}

/-- One column of a sweep as a course of its own. -/
def sweepColumn (f : VectorFunction α n) (x fx : Vector α n) (k : Nat) (buffer : Vector α n)
    (j : Fin n) : Course α n (Vector α n × (Fin n → α)) :=
  (Run.ofExcept (DifferenceStep.scaled.perturb x j)).bind fun p =>
    (f.call k p.point buffer).bind fun y =>
      if ¬ y.all isFinite then Run.fail (.evaluation (.nonFinitePerturbed j (p.point.get j)))
      else ⟨[], .ok (y, fun i => (y.get i - fx.get i) / p.divisor)⟩

theorem columns_toRun (f : VectorFunction α n) (x fx : Vector α n) (j : Fin n)
    (js : List (Fin n)) (k : Nat) (buffer : Vector α n) (a : DenseMatrix α n n)
    (counters : Counters) :
    ((DifferenceSweep.columns f .scaled x fx (j :: js) k buffer a counters).toRun :
      Course α n _) =
      (sweepColumn f x fx k buffer j).bind fun (y, quotients) =>
        (DifferenceSweep.columns f .scaled x fx js (k + 1) y (a.setColumn j quotients)
          counters.countFunction).toRun := by
  rw [DifferenceSweep.columns, sweepColumn]
  cases DifferenceStep.scaled.perturb x j with
  | error e => rfl
  | ok p =>
      dsimp only
      cases said : ((f k p.point buffer).outcome : Except (Failure α) (Vector α n)) with
      | error e =>
          have called : (f.call k p.point buffer : Course α n _).outcome = .error e := said
          rw [Run.bind_of_ok (r := Run.ofExcept (.ok p)) rfl, Run.bind_error called]
          rfl
      | ok y =>
          have called : (f.call k p.point buffer : Course α n _).outcome = .ok y := said
          rw [Run.bind_of_ok (r := Run.ofExcept (.ok p)) rfl, Run.bind_of_ok called]
          dsimp only
          split
          · rfl
          · rfl

theorem sweepColumn_looks (overwrites : Overwrites f F) (k : Nat) (buffer : Vector α n)
    (j : Fin n) :
    Looks (fun answer quotients => answer.2 = quotients) (sweepColumn f x fx k buffer j)
      (Unbuffered.column F x fx k j) := by
  refine .bind (.ofExcept _) ?_
  rintro p _ rfl
  refine .bind (call_looks overwrites k p.point buffer) ?_
  rintro y _ rfl
  exact .ite (.fail _) (.pure rfl)

/-- A sweep sets its columns to the difference quotients and leaves the others. -/
theorem columns_looks (overwrites : Overwrites f F) (js : List (Fin n)) (distinct : js.Nodup)
    (k : Nat) (buffer : Vector α n) (a : DenseMatrix α n n) (counters : Counters) :
    Looks (fun answer quotients =>
        (∀ i j, answer.1.entry i j = if j ∈ js then quotients j i else a.entry i j) ∧
          answer.2 =
            { counters with functionEvaluations := counters.functionEvaluations + js.length })
      (DifferenceSweep.columns f .scaled x fx js k buffer a counters).toRun
      (Unbuffered.columns F x fx k js) := by
  induction js generalizing k buffer a counters with
  | nil =>
      refine .pure ⟨fun i j => ?_, rfl⟩
      exact (if_neg List.not_mem_nil).symm
  | cons j js ih =>
      obtain ⟨fresh, distinct⟩ := List.nodup_cons.mp distinct
      rw [columns_toRun]
      refine .bind (sweepColumn_looks overwrites k buffer j) ?_
      rintro ⟨y, quotients⟩ _ rfl
      refine .andThen (ih distinct (k + 1) y (a.setColumn j quotients) counters.countFunction) ?_
      rintro ⟨b, later⟩ others ⟨entries, counted⟩
      refine ⟨fun i j' => ?_, ?_⟩
      · rw [entries, DenseMatrix.entry_setColumn]
        by_cases same : j' = j
        · subst same
          simp only [if_neg fresh, if_true, List.mem_cons_self]
        · simp only [List.mem_cons, same, false_or, if_false]
      · rw [counted, List.length_cons, Counters.countFunction, Nat.add_right_comm,
          Nat.add_assoc]

end Differences

theorem jacobian_looks (jacobian : JacobianFunction α n) (k : Nat) (x : Vector α n)
    (buffer : DenseMatrix α n n) :
    Looks Eq (jacobian.call k x (buffer.fill 0.0))
      ((Run.note (.jacobian x (jacobian k x (.replicate 0.0)).said)).bind fun _ =>
        Run.ofExcept (Unbuffered.reported (jacobian k x (.replicate 0.0)).said)) := by
  rw [fill_eq_replicate, reported_said]
  exact ⟨rfl, .of_eq _⟩

theorem evaluate_looks (overwrites : Overwrites f F) (derivative : Derivative α n)
    (s : State α n) :
    Looks Eq (derivative.evaluate f s) (derivative.slopes.evaluate F s.iterate) := by
  cases derivative with
  | analytic jacobian =>
      rw [Derivative.slopes, Unbuffered.Slopes.evaluate]
      simp only [Run.bind_eq]
      rw [← Run.bind_assoc]
      refine .bind (jacobian_looks jacobian _ s.current.x s.matrix) ?_
      rintro a _ rfl
      exact .pure rfl
  | differences =>
      have later : Overwrites (f.after s.counters.functionEvaluations)
          fun k => F (s.counters.functionEvaluations + k) := fun k => overwrites _
      refine .andThen (columns_looks later (List.finRange n) (List.nodup_finRange n) 1
        (Vector.replicate n 0.0) (s.matrix.fill 0.0) s.counters) ?_
      rintro ⟨a, counters⟩ quotients ⟨entries, counted⟩
      have same : a = .ofFn fun i j => quotients j i := by
        ext i hi j hj
        have entry := entries ⟨i, hi⟩ ⟨j, hj⟩
        rw [if_pos (List.mem_finRange _)] at entry
        rw [← DenseMatrix.entry_ofFn (fun i j => quotients j i)] at entry
        exact entry
      rw [List.length_finRange] at counted
      exact Prod.ext same counted

theorem solveFor_looks (linear : ExactSolver α n) (s : State α n) (a : DenseMatrix α n n) :
    Looks (fun step step' => step = step'.toArray) (solveFor linear.toSolver s a)
      (Unbuffered.solveFor linear s.iterate a) := by
  have answered : linear.toSolver (s.counters.iterations + 1) a (s.current.fx.map (-·)) =
      (linear (s.counters.iterations + 1) a (s.current.fx.map (-·))).map Vector.toArray := rfl
  rw [solveFor, Unbuffered.solveFor]
  simp only [Run.bind_eq, answered, State.iterate]
  refine .bind (.note _) ?_
  rintro ⟨⟩ ⟨⟩ -
  cases linear (s.counters.iterations + 1) a (s.current.fx.map (-·)) with
  | none => exact .bind (.note _) fun _ _ _ => .fail _
  | some step => exact .pure rfl

/-- A step for every component leaves nothing of the point that was in the buffer. -/
theorem target_toArray (trial : Trial α n) (x step : Vector α n) (damping : α) :
    trial.target x step.toArray damping = Unbuffered.target x step damping := by
  ext i hi
  simp [Trial.target, Unbuffered.target, Vector.get]

theorem trial_looks (overwrites : Overwrites f F) (trial : Trial α n) (k : Nat)
    (x step : Vector α n) (damping : α) :
    Looks (fun trial' fx => trial' = ⟨Unbuffered.target x step damping, fx⟩)
      (trial.evaluate f k x step.toArray damping)
      (Unbuffered.call F k (Unbuffered.target x step damping)) := by
  rw [Trial.evaluate, target_toArray, ← Run.bind_pure (Unbuffered.call _ _ _)]
  refine .bind (call_looks overwrites k _ trial.fx) ?_
  rintro fx _ rfl
  exact .pure rfl

/-- Rejected trials leave nothing behind: the trial that a search begins with is free. -/
theorem backtrack_looks (overwrites : Overwrites f F) (config : NewtonConfig α)
    (x step : Vector α n) (residual : α) (remaining : Nat) (damping : α) (trial : Trial α n)
    (counters : Counters) :
    Looks Eq (backtrack config f x step.toArray residual remaining damping trial counters)
      (Unbuffered.backtrack config F x step residual remaining damping counters) := by
  induction remaining generalizing damping trial counters with
  | zero =>
      refine .bind (trial_looks overwrites trial _ x step damping) ?_
      rintro _ fx rfl
      exact .pure rfl
  | succ remaining ih =>
      refine .bind (trial_looks overwrites trial _ x step damping) ?_
      rintro _ fx rfl
      exact .ite (.pure rfl) (ih _ _ _)

/-- What becomes of a step depends neither on the point it left nor on the matrix. -/
theorem judge_looks (config : NewtonConfig α) (s : State α n) (a : DenseMatrix α n n)
    (accepted : Accepted α n) :
    Looks (fun t t' => t.iterate = t') (judge config s a accepted)
      (Unbuffered.judge config s.iterate accepted) := by
  rw [judge, Unbuffered.judge]
  refine .bind (.note (SystemEntry.event (Event.step _ _ _))) ?_
  rintro ⟨⟩ ⟨⟩ -
  have gives_up (t : State α n) : Looks (fun t t' => t.iterate = t') (diverged t)
      (Unbuffered.diverged t.iterate) :=
    .bind (.note (SystemEntry.event (Event.diverged _ _))) fun _ _ _ => .fail _
  refine .ite (gives_up (s.after config a accepted)) ?_
  exact .ite (gives_up (s.after config a accepted)) (.pure rfl)

theorem advance_looks (overwrites : Overwrites f F) (config : NewtonConfig α)
    (linear : ExactSolver α n) (derivative : Derivative α n) (s : State α n) :
    Looks (fun t t' => t.iterate = t') (advance config linear.toSolver f derivative s)
      (Unbuffered.advance config linear F derivative.slopes s.iterate) := by
  refine .bind (evaluate_looks overwrites derivative s) ?_
  rintro ⟨a, counters⟩ _ rfl
  refine .bind (solveFor_looks linear s a) ?_
  rintro _ step rfl
  refine .bind (backtrack_looks overwrites config s.current.x step s.residual
    config.maxBacktracks 1.0 s.spare counters) ?_
  rintro accepted _ rfl
  exact judge_looks config s a accepted

omit [Scalar α] in
theorem found_looks (s : State α n) : Looks Eq (found s) (Unbuffered.found s.iterate) :=
  .bind (.note (SystemEntry.event (Event.converged s.residual s.counters))) fun _ _ _ => .pure rfl

theorem iterate_looks (overwrites : Overwrites f F) (config : NewtonConfig α)
    (linear : ExactSolver α n) (derivative : Derivative α n) (k : Nat) (s : State α n) :
    Looks Eq (iterate config linear.toSolver f derivative k s)
      (Unbuffered.iterate config linear F derivative.slopes k s.iterate) := by
  induction k generalizing s with
  | zero =>
      refine .ite (found_looks s) ?_
      exact .bind (.note (SystemEntry.event (Event.limit _ _))) fun _ _ _ => .fail _
  | succ k ih =>
      refine .ite (found_looks s) ?_
      refine .bind (advance_looks overwrites config linear derivative s) ?_
      rintro t _ rfl
      exact ih t

/-- Newton's method does what it would do without buffers: it makes the same calls of the
functions and of the linear solver, reports the same events, and ends with the same solution
or failure. -/
theorem solve_unbuffered (overwrites : Overwrites f F) (config : NewtonConfig α)
    (linear : ExactSolver α n) (derivative : Derivative α n) (guess : Vector α n) :
    (solve config linear.toSolver f derivative guess).trace.map SystemEntry.observe =
        (Unbuffered.solve config linear F derivative.slopes guess).trace ∧
      (solve config linear.toSolver f derivative guess).outcome =
        (Unbuffered.solve config linear F derivative.slopes guess).outcome := by
  have looks : Looks Eq (solve config linear.toSolver f derivative guess)
      (Unbuffered.solve config linear F derivative.slopes guess) := by
    refine .ite (.fail _) ?_
    cases config.validate with
    | error fault => exact .fail _
    | ok =>
        refine .bind (call_looks overwrites 1 guess _) ?_
        rintro fx _ rfl
        exact .ite (.fail _) (iterate_looks overwrites config linear derivative _ _)
  exact ⟨looks.trace, looks.eq_outcome⟩

/-- Takes every matrix for a diagonal one. -/
def ExactSolver.diagonal [Div α] : ExactSolver α n :=
  fun _ a b => some (Vector.ofFn fun i => b.get i / a.entry i i)

/-- Writes four entries when it is first called, and only two from then on. -/
def fewer : JacobianFunction Float 2 := fun k _ buffer =>
  if k = 1 then ⟨#v[#v[2.0, 7.0], #v[7.0, 2.0]], none⟩
  else ⟨(buffer.write 0 0 1.0).write 1 1 1.0, none⟩

/-- The second system has zeros where the first Jacobian had other entries. -/
theorem solve_unbuffered_fewer :
    (solve .standard (ExactSolver.diagonal (α := Float)).toSolver (fun _ x _ => ⟨x, none⟩)
        (.analytic fewer) #v[3.0, 4.0]).outcome = .ok ⟨#v[0.0, 0.0], #v[0.0, 0.0], ⟨2, 3, 2⟩⟩ ∧
      (Unbuffered.solve .standard .diagonal (fun _ x => .ok x) (Derivative.analytic fewer).slopes
        #v[3.0, 4.0]).outcome = .ok ⟨#v[0.0, 0.0], #v[0.0, 0.0], ⟨2, 3, 2⟩⟩ ∧
      SystemEntry.systems (solve .standard (ExactSolver.diagonal (α := Float)).toSolver
        (fun _ x _ => ⟨x, none⟩) (.analytic fewer) #v[3.0, 4.0]).trace =
          [(#v[#v[2.0, 7.0], #v[7.0, 2.0]], #v[-3.0, -4.0]),
            (#v[#v[1.0, 0.0], #v[0.0, 1.0]], #v[-1.5, -2.0])] := by
  have outcome : (solve .standard (ExactSolver.diagonal (α := Float)).toSolver
      (fun _ x _ => ⟨x, none⟩) (.analytic fewer) #v[3.0, 4.0]).outcome =
        .ok ⟨#v[0.0, 0.0], #v[0.0, 0.0], ⟨2, 3, 2⟩⟩ := Run.ok_of_toOption (by decide +kernel)
  have overwrites : Overwrites (fun _ (x : Vector Float 2) _ => ⟨x, none⟩) fun _ x => .ok x :=
    fun _ _ _ => rfl
  have same := (solve_unbuffered overwrites .standard .diagonal (.analytic fewer) #v[3.0, 4.0]).2
  exact ⟨outcome, same ▸ outcome, by decide +kernel⟩

end Nonlinear.Newton
