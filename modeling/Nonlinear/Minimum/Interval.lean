import Nonlinear.Search.Sample

/-! # Intervals around a minimum

The state of a minimum search: an interval and the three best samples in it.  The vertex of
the parabola through the samples proposes a step; where the parabola is degenerate or its
vertex too close to an end, a golden-section step into the larger part is taken.
-/

namespace Nonlinear.Minimum

open Scalar

inductive Step where
  /-- By the golden ratio into the larger part of the interval. -/
  | goldenSection
  /-- To the vertex of the parabola through the three samples. -/
  | parabolic
  deriving DecidableEq, Repr

structure Interval (α : Type) where
  a : α
  b : α
  best : Sample α
  second : Sample α
  /-- The second best sample before the present one. -/
  third : Sample α
  deriving DecidableEq, Repr

namespace Interval

variable {α : Type} [Scalar α]

def around (a b : α) (p : Sample α) : Interval α := ⟨a, b, p, p, p⟩

def midpoint (s : Interval α) : α := (s.a + s.b) / 2.0

/-- The resolution at the best sample: `√ε·|x| + third`, with `third` a third of the
tolerance. -/
def resolution (s : Interval α) (third : α) : α := sqrtEpsilon * magnitude s.best.x + third

/-- The whole interval is within twice the resolution of the best sample. -/
def converged (s : Interval α) (resolution : α) : Prop :=
  magnitude (s.best.x - s.midpoint) ≤ 2.0 * resolution - (s.b - s.a) / 2.0

instance (s : Interval α) (r : α) : Decidable (s.converged r) := by
  unfold converged; infer_instance

def goldenStep (s : Interval α) : α :=
  golden * ((if s.best.x < s.midpoint then s.b else s.a) - s.best.x)

/-- The step to the vertex of the parabola, if it is shorter than the golden-section step and
stays clear of both ends. -/
def parabolicStep (s : Interval α) (golden resolution : α) : Option α :=
  let t := (s.best.x - s.second.x) * (s.best.y - s.third.y)
  let u := (s.best.x - s.third.x) * (s.best.y - s.second.y)
  let p := (s.best.x - s.third.x) * u - (s.best.x - s.second.x) * t
  let q := 2.0 * (u - t)
  let (p, q) := if 0.0 < q then (-p, q) else (p, -q)
  if magnitude p < magnitude (golden * q) ∧
      q * (s.a - s.best.x + 2.0 * resolution) < p ∧
      p < q * (s.b - s.best.x - 2.0 * resolution) then
    some (p / q)
  else none

/-- The parabolic step where there is one, and the golden-section step otherwise.  No parabola is
tried through samples that are nearer to each other than the resolution. -/
def nextStep (s : Interval α) (golden resolution : α) : Step × α :=
  if magnitude (s.best.x - s.second.x) < resolution then (.goldenSection, golden)
  else match s.parabolicStep golden resolution with
    | some step => (.parabolic, step)
    | none => (.goldenSection, golden)

def propose (s : Interval α) (resolution : α) (goldenOnly : Bool) : Step × α :=
  if goldenOnly then (.goldenSection, s.goldenStep) else s.nextStep s.goldenStep resolution

/-- Shrink the interval around a trial sample and rank the samples again. -/
def update (s : Interval α) (p : Sample α) : Interval α :=
  if p.y ≤ s.best.y then
    { a := if p.x < s.best.x then s.a else s.best.x
      b := if p.x < s.best.x then s.best.x else s.b
      best := p
      second := s.best
      third := s.second }
  else
    let s :=
      { s with
        a := if p.x < s.best.x then p.x else s.a
        b := if p.x < s.best.x then s.b else p.x }
    if p.y ≤ s.second.y ∨ s.second.x == s.best.x then
      { s with second := p, third := s.second }
    else if p.y ≤ s.third.y ∨ s.third.x == s.best.x ∨ s.third.x == s.second.x then
      { s with third := p }
    else s

end Interval

end Nonlinear.Minimum
