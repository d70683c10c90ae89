import Nonlinear.ForwardDifference
import Nonlinear.Newton.Backtracking
import Nonlinear.Newton.LinearSolver

/-! # Newton's method

Each iteration solves `J · d = -F(x)` for a step, takes as much of it as the line search
allows, and judges the new residual norm.  The buffers of the previous point are handed to
the next trial, so a residual that leaves components alone finds there what an earlier trial
wrote.  The Jacobian has one buffer, which is filled with zeros before it is written again.
-/

namespace Nonlinear.Newton

open Scalar

/-- Where the Jacobian comes from. -/
inductive Derivative (α : Type) (n : Nat) where
  | analytic (jacobian : JacobianFunction α n)
  /-- Forward differences with scaled steps. -/
  | differences

inductive Event (α : Type) where
  | step (iteration : Nat) (residualNorm damping : α)
  | converged (residualNorm : α) (counters : Counters)
  | singular (iteration : Nat) (residualNorm : α)
  | diverged (iteration : Nat) (residualNorm : α)
  | limit (iterations : Nat) (residualNorm : α)

abbrev Course (α : Type) (n : Nat) := SystemRun α n (Event α)

/-- The state between two iterations. -/
structure State (α : Type) (n : Nat) where
  current : Trial α n
  /-- The buffers for the next trial. -/
  spare : Trial α n
  /-- The buffer for the next Jacobian. -/
  matrix : DenseMatrix α n n
  residual : α
  /-- How many steps up to here have increased the norm in a row. -/
  increases : Nat
  counters : Counters

variable {α : Type} [Scalar α] {n : Nat}

def Derivative.evaluate (derivative : Derivative α n) (f : VectorFunction α n)
    (s : State α n) : Course α n (DenseMatrix α n n × Counters) :=
  match derivative with
  | analytic jacobian => do
    let a ← jacobian.call (s.counters.jacobianEvaluations + 1) s.current.x (s.matrix.fill 0.0)
    pure (a, s.counters.countJacobian)
  | differences =>
    (DifferenceSweep.fill (f.after s.counters.functionEvaluations) .scaled
      s.current.x s.current.fx (s.matrix.fill 0.0) s.counters).toRun

def found (s : State α n) : Course α n (Solution (Vector α n)) := do
  Run.note (.event (.converged s.residual s.counters))
  pure ⟨s.current.x, s.current.fx, s.counters⟩

/-- Give up on a norm that blew up or keeps growing. -/
def diverged (s : State α n) : Course α n (State α n) := do
  Run.note (.event (.diverged s.counters.iterations s.residual))
  Run.fail (.divergence s.counters.iterations s.residual)

/-- Hand the Newton system to the linear solver. -/
def solveFor (linear : LinearSolver α n) (s : State α n) (a : DenseMatrix α n n) :
    Course α n (Array α) := do
  let b := s.current.fx.map (-·)
  let answer := linear (s.counters.iterations + 1) a b
  Run.note (.linear a b answer)
  match answer with
  | some step => pure step
  | none => do
    Run.note (.event (.singular s.counters.iterations s.residual))
    Run.fail (.singularJacobian s.counters.iterations)

/-- Move to an accepted trial and judge its norm.  The Jacobian stays in its buffer. -/
def judge (config : NewtonConfig α) (s : State α n) (a : DenseMatrix α n n)
    (accepted : Accepted α n) : Course α n (State α n) := do
  let residual := config.norm.norm accepted.trial.fx
  let counters := accepted.counters.countIteration
  Run.note (.event (.step counters.iterations residual accepted.damping))
  let next : State α n :=
    { current := accepted.trial
      spare := s.current
      matrix := a
      residual
      increases := if s.residual < residual then s.increases + 1 else 0
      counters }
  if ¬ isFinite residual ∨ config.divergenceThreshold < residual then diverged next
  else if s.residual < residual ∧ config.divergenceWindow ≤ next.increases then diverged next
  else pure next

def advance (config : NewtonConfig α) (linear : LinearSolver α n) (f : VectorFunction α n)
    (derivative : Derivative α n) (s : State α n) : Course α n (State α n) := do
  let (a, counters) ← derivative.evaluate f s
  let step ← solveFor linear s a
  let accepted ← takeStep config f s.current.x step s.residual s.spare counters
  judge config s a accepted

def iterate (config : NewtonConfig α) (linear : LinearSolver α n) (f : VectorFunction α n)
    (derivative : Derivative α n) :
    (k : Nat) → State α n → Course α n (Solution (Vector α n))
  | 0, s =>
    if s.residual < config.tolerance then found s
    else do
      Run.note (.event (.limit config.maxIterations s.residual))
      Run.fail (.iterationLimit config.maxIterations)
  | k + 1, s =>
    if s.residual < config.tolerance then found s
    else do
      let s ← advance config linear f derivative s
      iterate config linear f derivative k s

/-- Solve `F(x) = 0` from an initial guess. -/
def solve (config : NewtonConfig α) (linear : LinearSolver α n) (f : VectorFunction α n)
    (derivative : Derivative α n) (guess : Vector α n) : Course α n (Solution (Vector α n)) :=
  if n = 0 then Run.fail (.input .emptyGuess)
  else match config.validate with
  | .error fault => Run.fail (.input (.config fault))
  | .ok () => do
    let zero : Vector α n := Vector.replicate n 0.0
    let fx ← f.call 1 guess zero
    if ¬ fx.all isFinite then Run.fail (.evaluation .nonFiniteGuess)
    else
      iterate config linear f derivative config.maxIterations
        { current := ⟨guess, fx⟩
          spare := ⟨zero, zero⟩
          matrix := .replicate 0.0
          residual := config.norm.norm fx
          increases := 0
          counters := { functionEvaluations := 1 } }

end Nonlinear.Newton
