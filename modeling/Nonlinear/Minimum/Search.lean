import Nonlinear.Minimum.Interval
import Nonlinear.Search.Config
import Nonlinear.Solution

/-! # Minimum search

Golden-section search with parabolic steps, on an interval whose ends are never evaluated.
-/

namespace Nonlinear.Minimum

open Scalar

inductive Event (α : Type) where
  | step (iteration : Nat) (x fx : α) (kind : Step)
  | converged (x fx : α) (counters : Counters)
  | limit (iterations : Nat) (x : α)

abbrev Course (α : Type) := Run (SearchEntry α (Event α)) (Failure α)

variable {α : Type} [Scalar α]

def found (s : Interval α) (counters : Counters) : Course α (Solution α) := do
  Run.note (.event (.converged s.best.x s.best.y counters))
  pure ⟨s.best.x, s.best.y, counters⟩

def iterate (config : SearchConfig α) (f : ScalarFunction α) :
    (n : Nat) → Interval α → Counters → Course α (Solution α)
  | 0, s, counters =>
    if s.converged (s.resolution (config.tolerance / 3.0)) then found s counters
    else do
      Run.note (.event (.limit config.maxIterations s.best.x))
      Run.fail (.iterationLimit config.maxIterations)
  | n + 1, s, counters =>
    let resolution := s.resolution (config.tolerance / 3.0)
    if s.converged resolution then found s counters
    else do
      let (kind, step) := s.propose resolution config.bisectionOnly
      let p ← f.sample (counters.functionEvaluations + 1)
        (s.best.x + lengthen resolution step)
      let counters := counters.countFunction.countIteration
      Run.note (.event (.step counters.iterations p.x p.y kind))
      iterate config f n (s.update p) counters

/-- Find a local minimum of `f` inside the interval between `a` and `b`, which may come in
either order. -/
def search (config : SearchConfig α) (f : ScalarFunction α) (a b : α) :
    Course α (Solution α) :=
  if ¬ isFinite a ∨ ¬ isFinite b ∨ a == b then Run.fail (.input (.interval a b))
  else match config.validate with
  | .error fault => Run.fail (.input (.config fault))
  | .ok () => do
    let (a, b) := if a < b then (a, b) else (b, a)
    let p ← f.sample 1 (a + golden * (b - a))
    iterate config f config.maxIterations (.around a b p) { functionEvaluations := 1 }

end Nonlinear.Minimum
