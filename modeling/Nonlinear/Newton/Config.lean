import Nonlinear.ResidualNorm

/-! # Configuration of Newton's method -/

namespace Nonlinear

open Scalar

structure NewtonConfig (α : Type) where
  /-- Residual norm below which a point is a solution. -/
  tolerance : α
  maxIterations : Nat
  /-- Shorten steps that do not reduce the residual enough. -/
  lineSearch : Bool
  /-- How often a step may be halved. -/
  maxBacktracks : Nat
  /-- The fraction `c` of the decrease `(1 - c·λ)` asked of a step damped by `λ`. -/
  sufficientDecrease : α
  /-- No smaller damping factor is tried. -/
  minDamping : α
  norm : ResidualNorm
  /-- This many increases of the norm in a row count as divergence. -/
  divergenceWindow : Nat
  /-- A larger norm counts as divergence. -/
  divergenceThreshold : α
  deriving DecidableEq, Repr

namespace NewtonConfig

variable {α : Type} [Scalar α]

def standard : NewtonConfig α where
  tolerance := 1e-10
  maxIterations := 50
  lineSearch := false
  maxBacktracks := 20
  sufficientDecrease := 1e-4
  minDamping := 1e-6
  norm := .maxAbs
  divergenceWindow := 5
  divergenceThreshold := 1e100

/-- The standard configuration with another tolerance and budget, for arguments that are
positive. -/
def create (tolerance : α) (maxIterations : Nat) : Except Refusal (NewtonConfig α) :=
  if ¬ (0.0 : α) < tolerance then .error .tolerance
  else if maxIterations = 0 then .error .maxIterations
  else .ok { standard with tolerance, maxIterations }

/-- The first field that is out of its range, if there is one. -/
def validate (c : NewtonConfig α) : Except ConfigFault Unit :=
  if ¬ (0.0 : α) < c.tolerance ∨ ¬ isFinite c.tolerance then .error .tolerance
  else if c.maxIterations = 0 then .error .maxIterations
  else if ¬ ((0.0 : α) ≤ c.sufficientDecrease ∧ c.sufficientDecrease < 1.0) then
    .error .sufficientDecrease
  else if ¬ ((0.0 : α) < c.minDamping ∧ c.minDamping ≤ 1.0) then .error .minDamping
  else if c.divergenceWindow = 0 then .error .divergenceWindow
  else if ¬ c.tolerance < c.divergenceThreshold then .error .divergenceThreshold
  else .ok ()

end NewtonConfig

end Nonlinear
