import Nonlinear.Root.Bracket
import Nonlinear.Search.Config
import Nonlinear.Solution

/-! # Root search

Brent's method on a bracket with a change of sign.  Every iteration makes one call, so the
whole course of a search is determined by the values it was given.
-/

namespace Nonlinear.Root

open Scalar

inductive Event (α : Type) where
  | leftEndpoint (x : α)
  | rightEndpoint (x : α)
  | noSignChange (a b : α)
  | step (iteration : Nat) (x fx : α) (kind : Step)
  | converged (x fx : α) (counters : Counters)
  | limit (iterations : Nat) (x : α)

abbrev Course (α : Type) := Run (SearchEntry α (Event α)) (Failure α)

variable {α : Type} [Scalar α]

def found (s : Bracket α) (counters : Counters) : Course α (Solution α) := do
  Run.note (.event (.converged s.best.x s.best.y counters))
  pure ⟨s.best.x, s.best.y, counters⟩

def iterate (config : SearchConfig α) (f : ScalarFunction α) :
    (n : Nat) → Bracket α → Counters → Course α (Solution α)
  | 0, s, counters =>
    let s := s.keepBest
    if s.converged (s.resolution config.tolerance) config.functionTolerance then
      found s counters
    else do
      Run.note (.event (.limit config.maxIterations s.best.x))
      Run.fail (.iterationLimit config.maxIterations)
  | n + 1, s, counters =>
    let lastStep := s.best.x - s.previous.x
    let s := s.keepBest
    let resolution := s.resolution config.tolerance
    if s.converged resolution config.functionTolerance then
      found s counters
    else do
      let (kind, step) := s.propose resolution lastStep config.bisectionOnly
      let p ← f.sample (counters.functionEvaluations + 1) (s.best.x + lengthen resolution step)
      let counters := counters.countFunction.countIteration
      Run.note (.event (.step counters.iterations p.x p.y kind))
      iterate config f n (s.advance p) counters

/-- Find a root of `f` between `a` and `b`, which may come in either order.  An endpoint whose
value counts as zero is answered at once; otherwise the values there must differ in sign. -/
def search (config : SearchConfig α) (f : ScalarFunction α) (a b : α) :
    Course α (Solution α) :=
  if ¬ isFinite a ∨ ¬ isFinite b then Run.fail (.input (.bracket a b))
  else match config.validate with
  | .error fault => Run.fail (.input (.config fault))
  | .ok () => do
    let p ← f.sample 1 a
    let q ← f.sample 2 b
    let counters : Counters := { functionEvaluations := 2 }
    if magnitude p.y ≤ config.functionTolerance then
      Run.note (.event (.leftEndpoint a))
      pure ⟨a, p.y, counters⟩
    else if magnitude q.y ≤ config.functionTolerance then
      Run.note (.event (.rightEndpoint b))
      pure ⟨b, q.y, counters⟩
    else if isNegative p.y == isNegative q.y then
      Run.note (.event (.noSignChange a b))
      Run.fail (.invalidBracket a b p.y q.y)
    else
      iterate config f config.maxIterations (.between p q) counters

end Nonlinear.Root
