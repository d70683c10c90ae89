import Nonlinear.Newton.Config
import Nonlinear.System
import Nonlinear.Solution

/-! # Backtracking

A Newton step is tried in full and, with line search, halved until it reduces the residual
norm enough.
-/

namespace Nonlinear.Newton

open Scalar

structure Trial (α : Type) (n : Nat) where
  x : Vector α n
  fx : Vector α n
  deriving DecidableEq, Repr

/-- The trial that ended a search, with the damping factor it was made with. -/
structure Accepted (α : Type) (n : Nat) where
  damping : α
  trial : Trial α n
  counters : Counters

variable {α ε : Type} [Scalar α] {n : Nat}

namespace Trial

/-- The point `x + λ · step`.  Components for which there is no step keep what the trial
held. -/
def target (trial : Trial α n) (x : Vector α n) (step : Array α) (damping : α) : Vector α n :=
  Vector.ofFn fun i => if h : i < step.size then x.get i + damping * step[i] else trial.x.get i

/-- Evaluate the residual at the target of a damped step. -/
def evaluate (trial : Trial α n) (f : VectorFunction α n) (k : Nat) (x : Vector α n)
    (step : Array α) (damping : α) : SystemRun α n ε (Trial α n) := do
  let point := trial.target x step damping
  let fx ← f.call k point trial.fx
  pure ⟨point, fx⟩

end Trial

/-- The norm is finite and has come down enough for this damping factor. -/
def sufficient (config : NewtonConfig α) (residual damping norm : α) : Prop :=
  isFinite norm = true ∧ norm ≤ (1.0 - config.sufficientDecrease * damping) * residual

instance (config : NewtonConfig α) (residual damping norm : α) :
    Decidable (sufficient config residual damping norm) := by
  unfold sufficient; infer_instance

/-- The search ends with this trial. -/
def stops (config : NewtonConfig α) (residual damping norm : α) : Prop :=
  config.lineSearch = false ∨ sufficient config residual damping norm ∨
    damping * 0.5 < config.minDamping

instance (config : NewtonConfig α) (residual damping norm : α) :
    Decidable (stops config residual damping norm) := by
  unfold stops; infer_instance

/-- Try a step from `x`, where the norm is `residual`, with at most `remaining` halvings. -/
def backtrack (config : NewtonConfig α) (f : VectorFunction α n) (x : Vector α n)
    (step : Array α) (residual : α) :
    (remaining : Nat) → (damping : α) → Trial α n → Counters →
      SystemRun α n ε (Accepted α n)
  | 0, damping, trial, counters => do
    let trial ← trial.evaluate f (counters.functionEvaluations + 1) x step damping
    pure ⟨damping, trial, counters.countFunction⟩
  | remaining + 1, damping, trial, counters => do
    let trial ← trial.evaluate f (counters.functionEvaluations + 1) x step damping
    let counters := counters.countFunction
    if stops config residual damping (config.norm.norm trial.fx) then
      pure ⟨damping, trial, counters⟩
    else
      backtrack config f x step residual remaining (damping * 0.5) trial counters

/-- Try a step, in full first. -/
def takeStep (config : NewtonConfig α) (f : VectorFunction α n) (x : Vector α n)
    (step : Array α) (residual : α) (trial : Trial α n) (counters : Counters) :
    SystemRun α n ε (Accepted α n) :=
  backtrack config f x step residual config.maxBacktracks 1.0 trial counters

end Nonlinear.Newton
