import Nonlinear.Condition
import Nonlinear.ForwardDifference

/-! # Checking a Jacobian

A Jacobian written by hand is compared with forward differences, entry by entry.  The check
is advisory: it measures the largest discrepancy and names the entry that has it.
-/

namespace Nonlinear

open Scalar

structure JacobianCheck (α : Type) where
  /-- How far each coordinate is moved. -/
  perturbation : α
  verbose : Bool := false
  deriving DecidableEq, Repr

/-- The largest differences between two matrices, absolute and relative to the first one, and
the position of the latter. -/
structure Discrepancy (α : Type) where
  absolute : α
  relative : α
  worst : Nat × Nat
  deriving DecidableEq, Repr

structure JacobianReport (α : Type) (n : Nat) where
  analytic : DenseMatrix α n n
  numerical : DenseMatrix α n n
  discrepancy : Discrepancy α
  condition : Condition α
  counters : Counters

namespace JacobianCheck

/-- What a check reports while it works. -/
inductive Event (α : Type) where
  | entry (row column : Nat) (analytic numerical difference : α)
  /-- The end of a check that reports every entry. -/
  | summary (discrepancy : Discrepancy α) (condition : Condition α)
  /-- The end of any other check. -/
  | result (relative : α) (condition : Condition α)

end JacobianCheck

variable {α : Type} [Scalar α] {n : Nat}

namespace Discrepancy

/-- Before any entry is compared. -/
def none : Discrepancy α := ⟨0.0, 0.0, (0, 0)⟩

/-- Compare one entry.  Differences are relative to the larger of one and the analytic
entry; of equal ones the first counts. -/
def compareEntry (d : Discrepancy α) (position : Nat × Nat) (analytic numerical : α) :
    Discrepancy α :=
  let absolute := magnitude (numerical - analytic)
  let relative := absolute / larger (magnitude analytic) 1.0
  if d.relative < relative then ⟨larger d.absolute absolute, relative, position⟩
  else { d with absolute := larger d.absolute absolute }

/-- The positions of a matrix, column after column. -/
def positions (n : Nat) : List (Fin n × Fin n) :=
  (List.finRange n).flatMap fun j => (List.finRange n).map fun i => (i, j)

def between (analytic numerical : DenseMatrix α n n) : Discrepancy α :=
  (positions n).foldl
    (fun d (i, j) => d.compareEntry (i, j) (analytic.entry i j) (numerical.entry i j)) none

end Discrepancy

/-- No entry is off by more than the tolerance. -/
def JacobianReport.isConsistent (report : JacobianReport α n) (tolerance : α) : Bool :=
  report.discrepancy.relative ≤ tolerance

namespace JacobianCheck

def standard : JacobianCheck α := { perturbation := 1e-7 }

/-- A check with another perturbation, for an argument that is positive and finite. -/
def create (perturbation : α) : Except Refusal (JacobianCheck α) :=
  if 0.0 < perturbation ∧ isFinite perturbation then .ok { perturbation }
  else .error .perturbation

/-- The events of a finished check. -/
def events (check : JacobianCheck α) (report : JacobianReport α n) : List (Event α) :=
  if check.verbose then
    (Discrepancy.positions n).map (fun (i, j) =>
      let analytic := report.analytic.entry i j
      let numerical := report.numerical.entry i j
      .entry i j analytic numerical (numerical - analytic)) ++
    [.summary report.discrepancy report.condition]
  else [.result report.discrepancy.relative report.condition]

/-- Check a Jacobian against forward differences of a residual at a point. -/
def run (check : JacobianCheck α) (f : VectorFunction α n) (jacobian : JacobianFunction α n)
    (x : Vector α n) : SystemRun α n (Event α) (JacobianReport α n) :=
  if n = 0 then Run.fail (.input .emptyProbe)
  else do
    let fx ← f.call 1 x (Vector.replicate n 0.0)
    if ¬ fx.all isFinite then Run.fail (.evaluation .nonFiniteProbe)
    else
      let analytic ← jacobian.call 1 x (.replicate 0.0)
      if ¬ analytic.entries.all isFinite then Run.fail (.evaluation .nonFiniteJacobian)
      else
        let (numerical, counters) ←
          (DifferenceSweep.fill (f.after 1) (.absolute check.perturbation) x fx
            (.replicate 0.0) { functionEvaluations := 1, jacobianEvaluations := 1 }).toRun
        let report : JacobianReport α n :=
          { analytic, numerical, counters
            discrepancy := .between analytic numerical
            condition := analytic.condition }
        ⟨(check.events report).map .event, .ok report⟩

end JacobianCheck

end Nonlinear
