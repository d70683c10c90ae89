/-! # Failures

What can keep a solver from an answer.  A failure names its cause with the numbers that
belong to it, in the arithmetic of the run; `Failure.Report` puts it into words.
-/

namespace Nonlinear

/-- What a function says when it cannot be evaluated. -/
structure EvaluationError where
  message : String
  deriving DecidableEq, Repr

/-- A configuration field that is out of its range. -/
inductive ConfigFault where
  /-- Must be positive and finite. -/
  | tolerance
  /-- Must be non-negative and finite. -/
  | functionTolerance
  /-- Must not be zero. -/
  | maxIterations
  /-- Must lie in `[0, 1)`. -/
  | sufficientDecrease
  /-- Must lie in `(0, 1]`. -/
  | minDamping
  /-- Must not be zero. -/
  | divergenceWindow
  /-- Must exceed the tolerance. -/
  | divergenceThreshold
  deriving DecidableEq, Repr

/-- Why a configuration could not be made from its text. -/
inductive ConfigError where
  /-- The text is malformed, or a field has a value of the wrong kind. -/
  | unreadable
  | invalid (fault : ConfigFault)
  | unknownNorm (name : String)
  deriving DecidableEq, Repr

/-- An argument that a constructor does not take. -/
inductive Refusal where
  | tolerance
  | maxIterations
  | perturbation
  deriving DecidableEq, Repr

/-- A function that gave no usable value. -/
inductive Fault (α : Type) where
  | reported (error : EvaluationError)
  /-- A scalar function has no finite value at `x`. -/
  | nonFiniteValue (x : α)
  /-- The residual is not finite at the initial guess. -/
  | nonFiniteGuess
  /-- The residual is not finite at the probe point. -/
  | nonFiniteProbe
  /-- The Jacobian at the probe point has an entry that is not finite. -/
  | nonFiniteJacobian
  /-- The residual is not finite with one coordinate moved to `x`. -/
  | nonFinitePerturbed (coordinate : Nat) (x : α)

/-- An input that a solver rejects before it calls any function. -/
inductive InputDefect (α : Type) where
  /-- A root bracket with an endpoint that is not finite. -/
  | bracket (a b : α)
  /-- A minimum search on an empty or unbounded interval. -/
  | interval (a b : α)
  | config (fault : ConfigFault)
  | emptyGuess
  | emptyProbe
  /-- A difference step that is not positive and finite. -/
  | step (h : α)

/-- Why a run came to no answer. -/
inductive Failure (α : Type) where
  /-- The values at both ends of the bracket have the same sign. -/
  | invalidBracket (a b fa fb : α)
  | iterationLimit (iterations : Nat)
  /-- The linear system of this iteration has no usable solution. -/
  | singularJacobian (iteration : Nat)
  /-- The residual norm blew up or kept growing. -/
  | divergence (iteration : Nat) (residualNorm : α)
  | evaluation (fault : Fault α)
  | dimension (expected got : Nat)
  | input (defect : InputDefect α)

end Nonlinear
