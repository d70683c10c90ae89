import Nonlinear.Decimal.Shortest
import Nonlinear.Failure

/-! # Failure reports

A failure as it is shown and stored: numbers as doubles, and the finer causes already in
words.
-/

namespace Nonlinear

open Decimal (text)

inductive Report where
  | invalidBracket (a b fa fb : Float)
  | maxIterationsExceeded (iterations : Nat)
  | singularJacobian (iteration : Nat)
  | divergence (iteration : Nat) (residualNorm : Float)
  | evaluationFailure (error : EvaluationError)
  | dimensionMismatch (expected got : Nat)
  | invalidInput (text : String)
  deriving DecidableEq

def Report.message : Report → String
  | invalidBracket a b fa fb =>
    "Invalid bracket: f(" ++ text a ++ ") = " ++ text fa ++ " and f(" ++ text b ++ ") = " ++
      text fb ++ " have same sign"
  | maxIterationsExceeded iterations =>
    "Failed to converge after " ++ toString iterations ++ " iterations"
  | singularJacobian iteration => "Singular Jacobian at iteration " ++ toString iteration
  | divergence iteration residualNorm =>
    "Diverged at iteration " ++ toString iteration ++ ": residual norm = " ++ text residualNorm
  | evaluationFailure error => "Evaluation failure: " ++ error.message
  | dimensionMismatch expected got =>
    "Dimension mismatch: expected " ++ toString expected ++ ", got " ++ toString got
  | invalidInput text => "Invalid input: " ++ text

namespace ConfigFault

/-- The name of the field in configuration texts. -/
def field : ConfigFault → String
  | tolerance => "tolerance"
  | functionTolerance => "function_tolerance"
  | maxIterations => "max_iterations"
  | sufficientDecrease => "sufficient_decrease"
  | minDamping => "min_damping"
  | divergenceWindow => "divergence_window"
  | divergenceThreshold => "divergence_threshold"

def reason : ConfigFault → String
  | tolerance => "must be positive and finite"
  | functionTolerance => "must be non-negative and finite"
  | maxIterations => "must be > 0"
  | sufficientDecrease => "must lie in [0, 1)"
  | minDamping => "must lie in (0, 1]"
  | divergenceWindow => "must be > 0"
  | divergenceThreshold => "must exceed tolerance"

def message (fault : ConfigFault) : String :=
  "Invalid value for '" ++ fault.field ++ "': " ++ fault.reason

end ConfigFault

/-- The message of an error; an unreadable text has none of its own. -/
def ConfigError.message? : ConfigError → Option String
  | unreadable => none
  | invalid fault => fault.message
  | unknownNorm name =>
    "Invalid norm: " ++ name ++ ". Must be one of: maxabs, euclidean, rms"

def Refusal.message : Refusal → String
  | tolerance => "tolerance must be positive"
  | maxIterations => "max_iterations must be > 0"
  | perturbation => "perturbation must be positive and finite"

variable {α : Type} [FloatingPoint α]

def numeral (x : α) : String := text (FloatingPoint.widen x)

namespace Fault

/-- A fault in the words of an evaluation error. -/
def toError : Fault α → EvaluationError
  | reported error => error
  | nonFiniteValue x => ⟨"function returned a non-finite value at x = " ++ numeral x⟩
  | nonFiniteGuess => ⟨"residual is non-finite at the initial guess"⟩
  | nonFiniteProbe => ⟨"residual is non-finite at the probe point"⟩
  | nonFiniteJacobian => ⟨"analytic Jacobian has non-finite entries"⟩
  | nonFinitePerturbed coordinate x =>
    ⟨"residual is non-finite after perturbing x[" ++ toString coordinate ++ "] to " ++ numeral x⟩

end Fault

def InputDefect.message : InputDefect α → String
  | bracket a b =>
    "bracket endpoints must be finite, got [" ++ numeral a ++ ", " ++ numeral b ++ "]"
  | interval a b =>
    "minimum search needs a finite, non-empty interval, got [" ++ numeral a ++ ", " ++
      numeral b ++ "]"
  | config fault => fault.message
  | emptyGuess => "initial guess must not be empty"
  | emptyProbe => "probe point must not be empty"
  | step h => "finite-difference step must be positive, got " ++ numeral h

def Failure.report : Failure α → Report
  | invalidBracket a b fa fb =>
    .invalidBracket (FloatingPoint.widen a) (FloatingPoint.widen b) (FloatingPoint.widen fa)
      (FloatingPoint.widen fb)
  | iterationLimit iterations => .maxIterationsExceeded iterations
  | singularJacobian iteration => .singularJacobian iteration
  | divergence iteration residualNorm => .divergence iteration (FloatingPoint.widen residualNorm)
  | evaluation fault => .evaluationFailure fault.toError
  | dimension expected got => .dimensionMismatch expected got
  | input defect => .invalidInput defect.message

end Nonlinear
