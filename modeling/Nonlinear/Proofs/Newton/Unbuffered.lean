import Nonlinear.Newton.Iteration

/-! # Newton's method without buffers

Newton's method as it is meant: the residual and its Jacobian are values at a point, and each
iterate is made from the one before it alone.  Nothing here is overwritten, so nothing can be
left over.  Only the number of a call is kept, since a function may depend on it.
-/

namespace Nonlinear

open Scalar

variable {α ε : Type} {n : Nat}

/-- What a function said, without what it left in a buffer when it failed. -/
def Written.said {β : Type} (w : Written β) : Except EvaluationError β :=
  match w.error with
  | some e => .error e
  | none => .ok w.contents

/-- What can be seen of work on a system. -/
inductive Observation (α : Type) (n : Nat) (ε : Type) where
  | residual (point : Vector α n) (answer : Except EvaluationError (Vector α n))
  | jacobian (point : Vector α n) (answer : Except EvaluationError (DenseMatrix α n n))
  | linear (a : DenseMatrix α n n) (b : Vector α n) (answer : Option (Array α))
  | event (event : ε)

def SystemEntry.observe : SystemEntry α n ε → Observation α n ε
  | residual call => .residual call.point call.answer.said
  | jacobian point answer => .jacobian point answer.said
  | linear a b answer => .linear a b answer
  | event e => .event e

namespace Newton

/-- A linear solver whose answers have as many components as the system. -/
abbrev ExactSolver (α : Type) (n : Nat) :=
  Nat → DenseMatrix α n n → Vector α n → Option (Vector α n)

def ExactSolver.toSolver (linear : ExactSolver α n) : LinearSolver α n :=
  fun k a b => (linear k a b).map Vector.toArray

/-- Every linear solver whose answers are long enough and no longer is of this kind. -/
theorem ExactSolver.exists_toSolver {linear : LinearSolver α n}
    (sizes : ∀ k a b step, linear k a b = some step → step.size = n) :
    ∃ exact : ExactSolver α n, exact.toSolver = linear := by
  refine ⟨fun k a b => (linear k a b).pmap (fun step size => ⟨step, size⟩) (sizes k a b), ?_⟩
  funext k a b
  rw [toSolver, Option.map_pmap, Option.pmap_eq_map, Option.map_id']

namespace Unbuffered

abbrev Course (α : Type) (n : Nat) := Run (Observation α n (Event α)) (Failure α)

/-- The values of a residual, by the number of the call. -/
abbrev Values (α : Type) (n : Nat) := Nat → Vector α n → Except EvaluationError (Vector α n)

/-- Where the Jacobian comes from. -/
inductive Slopes (α : Type) (n : Nat) where
  | analytic (jacobian : Nat → Vector α n → Except EvaluationError (DenseMatrix α n n))
  | differences

/-- An iterate, with what is known of the way to it. -/
structure Iterate (α : Type) (n : Nat) where
  x : Vector α n
  fx : Vector α n
  residual : α
  /-- How many steps up to here have increased the norm in a row. -/
  increases : Nat
  counters : Counters

def reported {β : Type} : Except EvaluationError β → Except (Failure α) β
  | .ok b => .ok b
  | .error e => .error (.evaluation (.reported e))

def call (F : Values α n) (k : Nat) (x : Vector α n) : Course α n (Vector α n) :=
  ⟨[.residual x (F k x)], reported (F k x)⟩

variable [Scalar α]

/-- The difference quotients in one coordinate. -/
def column (F : Values α n) (x fx : Vector α n) (k : Nat) (j : Fin n) :
    Course α n (Fin n → α) := do
  let p ← Run.ofExcept (DifferenceStep.scaled.perturb x j)
  let y ← call F k p.point
  if ¬ y.all isFinite then Run.fail (.evaluation (.nonFinitePerturbed j (p.point.get j)))
  else pure fun i => (y.get i - fx.get i) / p.divisor

/-- The difference quotients in some coordinates, in order. -/
def columns (F : Values α n) (x fx : Vector α n) :
    (k : Nat) → List (Fin n) → Course α n (Fin n → Fin n → α)
  | _, [] => pure fun _ _ => 0.0
  | k, j :: js => do
    let quotients ← column F x fx k j
    let others ← columns F x fx (k + 1) js
    pure fun i => if i = j then quotients else others i

def Slopes.evaluate (slopes : Slopes α n) (F : Values α n) (s : Iterate α n) :
    Course α n (DenseMatrix α n n × Counters) :=
  match slopes with
  | analytic jacobian => do
    let value := jacobian (s.counters.jacobianEvaluations + 1) s.x
    Run.note (.jacobian s.x value)
    let a ← Run.ofExcept (reported value)
    pure (a, s.counters.countJacobian)
  | differences => do
    let calls := s.counters.functionEvaluations
    let quotients ← columns (fun k => F (calls + k)) s.x s.fx 1 (List.finRange n)
    pure (.ofFn fun i j => quotients j i, { s.counters with functionEvaluations := calls + n })

def solveFor (linear : ExactSolver α n) (s : Iterate α n) (a : DenseMatrix α n n) :
    Course α n (Vector α n) := do
  let b := s.fx.map (-·)
  let answer := linear (s.counters.iterations + 1) a b
  Run.note (.linear a b (answer.map Vector.toArray))
  match answer with
  | some step => pure step
  | none => do
    Run.note (.event (.singular s.counters.iterations s.residual))
    Run.fail (.singularJacobian s.counters.iterations)

/-- The point `x + λ · step`. -/
def target (x step : Vector α n) (damping : α) : Vector α n :=
  Vector.ofFn fun i => x.get i + damping * step.get i

/-- Try a step from `x`, where the norm is `residual`, with at most `remaining` halvings. -/
def backtrack (config : NewtonConfig α) (F : Values α n) (x step : Vector α n) (residual : α) :
    (remaining : Nat) → (damping : α) → Counters → Course α n (Accepted α n)
  | 0, damping, counters => do
    let point := target x step damping
    let fx ← call F (counters.functionEvaluations + 1) point
    pure ⟨damping, ⟨point, fx⟩, counters.countFunction⟩
  | remaining + 1, damping, counters => do
    let point := target x step damping
    let fx ← call F (counters.functionEvaluations + 1) point
    let counters := counters.countFunction
    if stops config residual damping (config.norm.norm fx) then
      pure ⟨damping, ⟨point, fx⟩, counters⟩
    else backtrack config F x step residual remaining (damping * 0.5) counters

def diverged (s : Iterate α n) : Course α n (Iterate α n) := do
  Run.note (.event (.diverged s.counters.iterations s.residual))
  Run.fail (.divergence s.counters.iterations s.residual)

/-- Move to an accepted point and judge its norm. -/
def judge (config : NewtonConfig α) (s : Iterate α n) (accepted : Accepted α n) :
    Course α n (Iterate α n) := do
  let residual := config.norm.norm accepted.trial.fx
  let counters := accepted.counters.countIteration
  Run.note (.event (.step counters.iterations residual accepted.damping))
  let next : Iterate α n :=
    { x := accepted.trial.x
      fx := accepted.trial.fx
      residual
      increases := if s.residual < residual then s.increases + 1 else 0
      counters }
  if ¬ isFinite residual ∨ config.divergenceThreshold < residual then diverged next
  else if s.residual < residual ∧ config.divergenceWindow ≤ next.increases then diverged next
  else pure next

def advance (config : NewtonConfig α) (linear : ExactSolver α n) (F : Values α n)
    (slopes : Slopes α n) (s : Iterate α n) : Course α n (Iterate α n) := do
  let (a, counters) ← slopes.evaluate F s
  let step ← solveFor linear s a
  let accepted ← backtrack config F s.x step s.residual config.maxBacktracks 1.0 counters
  judge config s accepted

def found (s : Iterate α n) : Course α n (Solution (Vector α n)) := do
  Run.note (.event (.converged s.residual s.counters))
  pure ⟨s.x, s.fx, s.counters⟩

def iterate (config : NewtonConfig α) (linear : ExactSolver α n) (F : Values α n)
    (slopes : Slopes α n) : (k : Nat) → Iterate α n → Course α n (Solution (Vector α n))
  | 0, s =>
    if s.residual < config.tolerance then found s
    else do
      Run.note (.event (.limit config.maxIterations s.residual))
      Run.fail (.iterationLimit config.maxIterations)
  | k + 1, s =>
    if s.residual < config.tolerance then found s
    else do
      let s ← advance config linear F slopes s
      iterate config linear F slopes k s

/-- Solve `F(x) = 0` from an initial guess. -/
def solve (config : NewtonConfig α) (linear : ExactSolver α n) (F : Values α n)
    (slopes : Slopes α n) (guess : Vector α n) : Course α n (Solution (Vector α n)) :=
  if n = 0 then Run.fail (.input .emptyGuess)
  else match config.validate with
  | .error fault => Run.fail (.input (.config fault))
  | .ok () => do
    let fx ← call F 1 guess
    if ¬ fx.all isFinite then Run.fail (.evaluation .nonFiniteGuess)
    else
      iterate config linear F slopes config.maxIterations
        { x := guess
          fx
          residual := config.norm.norm fx
          increases := 0
          counters := { functionEvaluations := 1 } }

end Unbuffered

end Newton

end Nonlinear
