import Nonlinear.Newton.Config
import Nonlinear.Search.Config
import Nonlinear.Storage.Field
import Nonlinear.Toml.Reader

/-! # Stored configurations

A configuration text says what differs from the standard configuration.  Keys it does not
know are passed over; a known key must have a value of its kind, and what results must be
valid.
-/

namespace Nonlinear

open FieldSource

variable {V α : Type} [FloatingPoint α]

namespace SearchConfig

def fieldNames : List String :=
  ["tolerance", "function_tolerance", "max_iterations", "bisection_only"]

/-- The standard configuration with the fields at hand in their place. -/
def ofFields [FieldSource V] (fields : Fields V) : Option (SearchConfig α) := do
  let base : SearchConfig α := standard
  let tolerance ← fields.getD "tolerance" number? base.tolerance
  let functionTolerance ← fields.getD "function_tolerance" number? base.functionTolerance
  let maxIterations ← fields.getD "max_iterations" size? base.maxIterations
  let bisectionOnly ← fields.getD "bisection_only" flag? base.bisectionOnly
  pure { tolerance, functionTolerance, maxIterations, bisectionOnly }

def ofTable (table : Toml.Table) : Except ConfigError (SearchConfig α) := do
  let fields : Fields Toml.Value := fun name => table.lookup name
  match (ofFields fields : Option (SearchConfig α)) with
  | none => throw .unreadable
  | some config =>
    match config.validate with
    | .error fault => throw (.invalid fault)
    | .ok () => pure config

def ofToml (s : String) : Except ConfigError (SearchConfig α) :=
  match Toml.read? s with
  | none => .error .unreadable
  | some table => ofTable table

end SearchConfig

namespace NewtonConfig

def fieldNames : List String :=
  ["tolerance", "max_iterations", "line_search", "max_backtracks", "sufficient_decrease",
    "min_damping", "norm", "divergence_window", "divergence_threshold"]

/-- The standard configuration with the fields at hand in their place. -/
def ofFields [FieldSource V] (fields : Fields V) : Option (NewtonConfig α) := do
  let base : NewtonConfig α := standard
  let tolerance ← fields.getD "tolerance" number? base.tolerance
  let maxIterations ← fields.getD "max_iterations" size? base.maxIterations
  let lineSearch ← fields.getD "line_search" flag? base.lineSearch
  let maxBacktracks ← fields.getD "max_backtracks" size? base.maxBacktracks
  let sufficientDecrease ← fields.getD "sufficient_decrease" number? base.sufficientDecrease
  let minDamping ← fields.getD "min_damping" number? base.minDamping
  let norm ← fields.getD "norm" norm? base.norm
  let divergenceWindow ← fields.getD "divergence_window" size? base.divergenceWindow
  let divergenceThreshold ← fields.getD "divergence_threshold" number? base.divergenceThreshold
  pure
    { tolerance, maxIterations, lineSearch, maxBacktracks, sufficientDecrease, minDamping, norm,
      divergenceWindow, divergenceThreshold }

def ofTable (table : Toml.Table) : Except ConfigError (NewtonConfig α) := do
  let fields : Fields Toml.Value := fun name => table.lookup name
  match (ofFields fields : Option (NewtonConfig α)) with
  | none => throw .unreadable
  | some config =>
    match config.validate with
    | .error fault => throw (.invalid fault)
    | .ok () => pure config

def ofToml (s : String) : Except ConfigError (NewtonConfig α) :=
  match Toml.read? s with
  | none => .error .unreadable
  | some table => ofTable table

end NewtonConfig

end Nonlinear
