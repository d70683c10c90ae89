import Nonlinear.Scalar
import Nonlinear.Failure

/-! # Configuration of the scalar searches

Root and minimum search share one configuration.  A configuration is a plain record that may
hold anything; the searches accept it when `validate` does.
-/

namespace Nonlinear

open Scalar

structure SearchConfig (α : Type) where
  /-- Width to which the bracket is narrowed. -/
  tolerance : α
  /-- Magnitude up to which a function value counts as zero. -/
  functionTolerance : α
  maxIterations : Nat
  /-- Take no interpolated steps. -/
  bisectionOnly : Bool
  deriving DecidableEq, Repr

namespace SearchConfig

variable {α : Type} [Scalar α]

def standard : SearchConfig α where
  tolerance := epsilon
  functionTolerance := epsilon
  maxIterations := 100
  bisectionOnly := false

def highPrecision : SearchConfig α := { standard with maxIterations := 500 }

/-- Relaxed tolerances and a small budget. -/
def fast : SearchConfig α where
  tolerance := 1e-6
  functionTolerance := 1e-10
  maxIterations := 50
  bisectionOnly := false

/-- The standard configuration with another tolerance and budget, for arguments that are
positive. -/
def create (tolerance : α) (maxIterations : Nat) : Except Refusal (SearchConfig α) :=
  if ¬ (0.0 : α) < tolerance then .error .tolerance
  else if maxIterations = 0 then .error .maxIterations
  else .ok { standard with tolerance, maxIterations }

/-- The first field that is out of its range, if there is one. -/
def validate (c : SearchConfig α) : Except ConfigFault Unit :=
  if ¬ (0.0 : α) < c.tolerance ∨ ¬ isFinite c.tolerance then .error .tolerance
  else if ¬ (0.0 : α) ≤ c.functionTolerance ∨ ¬ isFinite c.functionTolerance then
    .error .functionTolerance
  else if c.maxIterations = 0 then .error .maxIterations
  else .ok ()

end SearchConfig

end Nonlinear
