import Nonlinear.JacobianCheck
import Nonlinear.Log.Record
import Nonlinear.Minimum.Search
import Nonlinear.Newton.Iteration
import Nonlinear.Root.Search

/-! # Records of events

How each event is entered in a log.  Steps are traced, ends of runs are for debugging, and
the report on a Jacobian that was asked to be verbose is information.
-/

namespace Nonlinear

open Log

variable {α : Type} [FloatingPoint α]

def logged (x : α) : Value := .number (FloatingPoint.widen x)

def Condition.logged : Condition α → Value
  | undefined => .condition .undefined
  | infinite => .condition .infinite
  | ratio value => .condition (.ratio (FloatingPoint.widen value))

def Root.Step.name : Root.Step → String
  | bisection => "Bisection"
  | secant => "Secant"
  | inverseQuadratic => "InverseQuadratic"

def Minimum.Step.name : Minimum.Step → String
  | goldenSection => "GoldenSection"
  | parabolic => "Parabolic"

instance : Loggable (Root.Event α) where
  record
    | .leftEndpoint x => ⟨.debug, "brent root: left endpoint is a root", [("x", logged x)]⟩
    | .rightEndpoint x => ⟨.debug, "brent root: right endpoint is a root", [("x", logged x)]⟩
    | .noSignChange a b =>
      ⟨.debug, "brent root: endpoints do not bracket a root", [("a", logged a), ("b", logged b)]⟩
    | .step iteration x fx kind =>
      ⟨.trace, "brent root step",
        [("iteration", .count iteration), ("x", logged x), ("fx", logged fx),
          ("step", .word kind.name)]⟩
    | .converged x fx counters =>
      ⟨.debug, "brent root converged",
        [("x", logged x), ("fx", logged fx), ("iterations", .count counters.iterations),
          ("function_evaluations", .count counters.functionEvaluations)]⟩
    | .limit iterations x =>
      ⟨.debug, "brent root: iteration limit reached",
        [("iterations", .count iterations), ("x", logged x)]⟩

instance : Loggable (Minimum.Event α) where
  record
    | .step iteration x fx kind =>
      ⟨.trace, "brent minimum step",
        [("iteration", .count iteration), ("x", logged x), ("fx", logged fx),
          ("step", .word kind.name)]⟩
    | .converged x fx counters =>
      ⟨.debug, "brent minimum converged",
        [("x", logged x), ("fx", logged fx), ("iterations", .count counters.iterations),
          ("function_evaluations", .count counters.functionEvaluations)]⟩
    | .limit iterations x =>
      ⟨.debug, "brent minimum: iteration limit reached",
        [("iterations", .count iterations), ("x", logged x)]⟩

instance : Loggable (Newton.Event α) where
  record
    | .step iteration residualNorm damping =>
      ⟨.trace, "newton step",
        [("iteration", .count iteration), ("residual_norm", logged residualNorm),
          ("damping", logged damping)]⟩
    | .converged residualNorm counters =>
      ⟨.debug, "newton converged",
        [("residual_norm", logged residualNorm), ("iterations", .count counters.iterations),
          ("function_evaluations", .count counters.functionEvaluations),
          ("jacobian_evaluations", .count counters.jacobianEvaluations)]⟩
    | .singular iteration residualNorm =>
      ⟨.debug, "newton: singular Jacobian",
        [("iteration", .count iteration), ("residual_norm", logged residualNorm)]⟩
    | .diverged iteration residualNorm =>
      ⟨.debug, "newton: divergence detected",
        [("iteration", .count iteration), ("residual_norm", logged residualNorm)]⟩
    | .limit iterations residualNorm =>
      ⟨.debug, "newton: iteration limit reached",
        [("iterations", .count iterations), ("residual_norm", logged residualNorm)]⟩

instance : Loggable (JacobianCheck.Event α) where
  record
    | .entry row column analytic numerical difference =>
      ⟨.info, "jacobian entry",
        [("row", .count row), ("column", .count column), ("analytic", logged analytic),
          ("numerical", logged numerical), ("difference", logged difference)]⟩
    | .summary discrepancy condition =>
      ⟨.info, "jacobian check",
        [("max_relative_difference", logged discrepancy.relative),
          ("max_abs_difference", logged discrepancy.absolute),
          ("row", .count discrepancy.worst.1), ("column", .count discrepancy.worst.2),
          ("condition_number", condition.logged)]⟩
    | .result relative condition =>
      ⟨.debug, "jacobian check",
        [("max_relative_difference", logged relative),
          ("condition_number", condition.logged)]⟩

end Nonlinear
