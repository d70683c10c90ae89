/-! # Solutions

What a successful run answers: a point, the value there, and what finding it cost.
-/

namespace Nonlinear

/-- Completed iterations and function calls of one run. -/
structure Counters where
  iterations : Nat := 0
  functionEvaluations : Nat := 0
  jacobianEvaluations : Nat := 0
  deriving DecidableEq, Repr

namespace Counters

def countIteration (c : Counters) : Counters := { c with iterations := c.iterations + 1 }

def countFunction (c : Counters) : Counters :=
  { c with functionEvaluations := c.functionEvaluations + 1 }

def countJacobian (c : Counters) : Counters :=
  { c with jacobianEvaluations := c.jacobianEvaluations + 1 }

end Counters

/-- A root or minimiser with the function value there, or a zero of a system with its
residual. -/
structure Solution (χ : Type) where
  x : χ
  value : χ
  counters : Counters
  deriving DecidableEq, Repr

end Nonlinear
