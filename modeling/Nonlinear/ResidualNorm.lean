import Nonlinear.Scalar
import Nonlinear.Failure

/-! # Norms of residuals

The norms that convergence and divergence are judged by.  A NaN component makes the norm a
NaN, so a bad component is never hidden.
-/

namespace Nonlinear

open Scalar

inductive ResidualNorm where
  /-- The largest magnitude. -/
  | maxAbs
  /-- The root of the sum of squares. -/
  | euclidean
  /-- The root of the mean square. -/
  | rms
  deriving DecidableEq, Repr

namespace ResidualNorm

variable {α : Type} [Scalar α]

/-- The largest magnitude in a list and not below `largest`.  Once there is a NaN it stays. -/
def maxAbsFrom (largest : α) : List α → α
  | [] => largest
  | x :: xs =>
    maxAbsFrom
      (if isNaN largest then largest else if isNaN x then x else larger largest (magnitude x)) xs

def sumOfSquares (xs : List α) : α := xs.foldl (fun sum x => sum + x * x) 0.0

/-- The norm of a vector; zero without components. -/
def norm {n : Nat} (kind : ResidualNorm) (v : Vector α n) : α :=
  if n = 0 then 0.0
  else match kind with
  | maxAbs => maxAbsFrom 0.0 v.toList
  | euclidean => sqrt (sumOfSquares v.toList)
  | rms => sqrt (sumOfSquares v.toList / Scalar.ofNat n)

def name : ResidualNorm → String
  | maxAbs => "maxabs"
  | euclidean => "euclidean"
  | rms => "rms"

def ofName? (s : String) : Option ResidualNorm :=
  [maxAbs, euclidean, rms].find? (·.name == s)

/-- Read a name without regard to case.  Only ASCII letters have a lower case that occurs in
a name. -/
def read (s : String) : Except ConfigError ResidualNorm :=
  match ofName? s.toLower with
  | some kind => .ok kind
  | none => .error (.unknownNorm s)

end ResidualNorm

end Nonlinear
