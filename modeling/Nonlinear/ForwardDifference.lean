import Nonlinear.System
import Nonlinear.Solution

/-! # Forward differences

A Jacobian estimated column by column: move one coordinate, evaluate the residual, divide by
the step that was really taken.  The first column that cannot be had ends the estimate and
leaves the columns from there on as they were.
-/

namespace Nonlinear

open Scalar

/-- How far a coordinate is moved. -/
inductive DifferenceStep (α : Type) where
  /-- By `√(ε · max(|x|, 1e-5))`, in proportion to the coordinate. -/
  | scaled
  | absolute (h : α)
  deriving DecidableEq, Repr

/-- A point with one coordinate moved, and the distance of the two points. -/
structure Perturbation (α : Type) (n : Nat) where
  point : Vector α n
  divisor : α

/-- An estimate of a Jacobian, complete or broken off. -/
structure DifferenceSweep (α : Type) (r c n : Nat) where
  jacobian : DenseMatrix α r c
  counters : Counters
  calls : List (VectorCall α n)
  outcome : Except (Failure α) Unit

variable {α : Type} [Scalar α] {n : Nat}

namespace DifferenceStep

def size (step : DifferenceStep α) (x : α) : α :=
  match step with
  | scaled => sqrt (epsilon * larger (magnitude x) 1e-5)
  | absolute h => h

/-- Move coordinate `j`.  The sum is rounded, so its distance from the coordinate need not be
the step. -/
def perturb (step : DifferenceStep α) (x : Vector α n) (j : Fin n) :
    Except (Failure α) (Perturbation α n) :=
  let h := step.size (x.get j)
  if ¬ 0.0 < h ∨ ¬ isFinite h then .error (.input (.step h))
  else .ok ⟨x.set j (x.get j + h) j.isLt, x.get j + h - x.get j⟩

end DifferenceStep

namespace DifferenceSweep

/-- The estimate of some columns, in order, beginning with the `k`-th call. -/
def columns (f : VectorFunction α n) (step : DifferenceStep α) (x fx : Vector α n) :
    List (Fin n) → (k : Nat) → (buffer : Vector α n) → DenseMatrix α n n → Counters →
      DifferenceSweep α n n n
  | [], _, _, jacobian, counters => ⟨jacobian, counters, [], .ok ()⟩
  | j :: js, k, buffer, jacobian, counters =>
    match step.perturb x j with
    | .error e => ⟨jacobian, counters, [], .error e⟩
    | .ok p =>
      let answer := f k p.point buffer
      let call : VectorCall α n := ⟨p.point, answer⟩
      let counters := counters.countFunction
      match answer.outcome with
      | .error e => ⟨jacobian, counters, [call], .error e⟩
      | .ok y =>
        if ¬ y.all isFinite then
          ⟨jacobian, counters, [call],
            .error (.evaluation (.nonFinitePerturbed j (p.point.get j)))⟩
        else
          let jacobian := jacobian.setColumn j fun i => (y.get i - fx.get i) / p.divisor
          let rest := columns f step x fx js (k + 1) y jacobian counters
          { rest with calls := call :: rest.calls }

/-- Estimate the Jacobian of `f` at `x`, where the residual is `fx`.  Calls of `f` are counted
from one. -/
def fill (f : VectorFunction α n) (step : DifferenceStep α) (x fx : Vector α n)
    (jacobian : DenseMatrix α n n) (counters : Counters) : DifferenceSweep α n n n :=
  columns f step x fx (List.finRange n) 1 (Vector.replicate n 0.0) jacobian counters

/-- Like `fill`, for a residual and a matrix of any size.  A wrong size is reported before
anything else is done. -/
def fill? {k r c : Nat} (f : VectorFunction α n) (step : DifferenceStep α) (x : Vector α n)
    (fx : Vector α k) (jacobian : DenseMatrix α r c) (counters : Counters) :
    DifferenceSweep α r c n :=
  if hk : k = n then
    if hr : r = n then
      if hc : c = n then
        let sweep := fill f step x (fx.cast hk) ((jacobian.map (·.cast hc)).cast hr) counters
        { sweep with jacobian := (sweep.jacobian.map (·.cast hc.symm)).cast hr.symm }
      else ⟨jacobian, counters, [], .error (.dimension n (max r c))⟩
    else ⟨jacobian, counters, [], .error (.dimension n (max r c))⟩
  else ⟨jacobian, counters, [], .error (.dimension n k)⟩

/-- The sweep as part of the work on a system. -/
def toRun {ε : Type} (sweep : DifferenceSweep α n n n) :
    SystemRun α n ε (DenseMatrix α n n × Counters) :=
  ⟨sweep.calls.map .residual, sweep.outcome.map fun _ => (sweep.jacobian, sweep.counters)⟩

end DifferenceSweep

end Nonlinear
