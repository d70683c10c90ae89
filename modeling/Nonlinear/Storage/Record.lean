import Nonlinear.Failure.Report
import Nonlinear.Solution
import Nonlinear.Storage.Config

/-! # Stored records

The JSON form of the data that callers keep: solutions, reports, configurations.  A record is
written as an object with all of its fields and read from an object, whatever else that
holds, or from an array of the fields in order.  A number that is not finite is written as
`null` and cannot be read back.
-/

namespace Nonlinear

open FieldSource

class Stored (β : Type) where
  encode : β → Json
  decode? : Json → Option β

export Stored (encode decode?)

def encodeNumber {α : Type} [FloatingPoint α] (x : α) : Json :=
  if Scalar.isFinite x then .real (FloatingPoint.widen x) else .null

def encodeSize (n : Nat) : Json := .whole n

instance : Stored Float := ⟨encodeNumber, number?⟩

instance : Stored Float32 := ⟨encodeNumber, number?⟩

instance : Stored String where
  encode := .text
  decode?
    | .text s => some s
    | _ => none

instance {χ : Type} [Stored χ] : Stored (List χ) where
  encode xs := .array (xs.map encode)
  decode?
    | .array items => items.mapM decode?
    | _ => none

instance : Stored EvaluationError where
  encode e := .object [("message", encode e.message)]
  decode? v := do
    let fields ← v.fields? ["message"]
    pure ⟨← fields.get "message" decode?⟩

instance : Stored Counters where
  encode c := .object
    [("iterations", encodeSize c.iterations),
      ("function_evaluations", encodeSize c.functionEvaluations),
      ("jacobian_evaluations", encodeSize c.jacobianEvaluations)]
  decode? v := do
    let fields ← v.fields? ["iterations", "function_evaluations", "jacobian_evaluations"]
    pure
      { iterations := ← fields.get "iterations" size?
        functionEvaluations := ← fields.get "function_evaluations" size?
        jacobianEvaluations := ← fields.get "jacobian_evaluations" size? }

instance {χ : Type} [Stored χ] : Stored (Solution χ) where
  encode s := .object
    [("x", encode s.x), ("value", encode s.value), ("stats", encode s.counters)]
  decode? v := do
    let fields ← v.fields? ["x", "value", "stats"]
    pure
      { x := ← fields.get "x" decode?
        value := ← fields.get "value" decode?
        counters := ← fields.get "stats" decode? }

instance : Stored ResidualNorm where
  encode kind := .text kind.name
  decode? := norm?

/-- A report is an object with the kind of failure as its only key. -/
instance : Stored Report where
  encode
    | .invalidBracket a b fa fb => .object
      [("InvalidBracket", .object
        [("a", encode a), ("b", encode b), ("fa", encode fa), ("fb", encode fb)])]
    | .maxIterationsExceeded iterations => .object
      [("MaxIterationsExceeded", .object [("iterations", encodeSize iterations)])]
    | .singularJacobian iteration => .object
      [("SingularJacobian", .object [("iteration", encodeSize iteration)])]
    | .divergence iteration residualNorm => .object
      [("Divergence", .object
        [("iteration", encodeSize iteration), ("residual_norm", encode residualNorm)])]
    | .evaluationFailure error => .object [("EvaluationFailure", encode error)]
    | .dimensionMismatch expected got => .object
      [("DimensionMismatch", .object
        [("expected", encodeSize expected), ("got", encodeSize got)])]
    | .invalidInput text => .object [("InvalidInput", encode text)]
  decode?
    | .object [("EvaluationFailure", v)] => (decode? v).map .evaluationFailure
    | .object [("InvalidInput", v)] => (decode? v).map .invalidInput
    | .object [(kind, .object members)] =>
      let fields : Fields Json := fun name => members.lookup name
      match kind with
      | "InvalidBracket" => do
        pure (.invalidBracket (← fields.get "a" number?) (← fields.get "b" number?)
          (← fields.get "fa" number?) (← fields.get "fb" number?))
      | "MaxIterationsExceeded" => do
        pure (.maxIterationsExceeded (← fields.get "iterations" size?))
      | "SingularJacobian" => do
        pure (.singularJacobian (← fields.get "iteration" size?))
      | "Divergence" => do
        pure (.divergence (← fields.get "iteration" size?)
          (← fields.get "residual_norm" number?))
      | "DimensionMismatch" => do
        pure (.dimensionMismatch (← fields.get "expected" size?) (← fields.get "got" size?))
      | _ => none
    | _ => none

instance {α : Type} [FloatingPoint α] : Stored (SearchConfig α) where
  encode c := .object
    [("tolerance", encodeNumber c.tolerance),
      ("function_tolerance", encodeNumber c.functionTolerance),
      ("max_iterations", encodeSize c.maxIterations),
      ("bisection_only", .bool c.bisectionOnly)]
  decode? v := (v.fields? SearchConfig.fieldNames).bind SearchConfig.ofFields

instance {α : Type} [FloatingPoint α] : Stored (NewtonConfig α) where
  encode c := .object
    [("tolerance", encodeNumber c.tolerance),
      ("max_iterations", encodeSize c.maxIterations),
      ("line_search", .bool c.lineSearch),
      ("max_backtracks", encodeSize c.maxBacktracks),
      ("sufficient_decrease", encodeNumber c.sufficientDecrease),
      ("min_damping", encodeNumber c.minDamping),
      ("norm", encode c.norm),
      ("divergence_window", encodeSize c.divergenceWindow),
      ("divergence_threshold", encodeNumber c.divergenceThreshold)]
  decode? v := (v.fields? NewtonConfig.fieldNames).bind NewtonConfig.ofFields

end Nonlinear
