import Nonlinear.Search.Sample

/-! # Root brackets

The state of a root search: the best estimate, the estimate before it, and a counterpoint
whose value has the other sign.  A step from the best estimate is interpolated through these
points where that promises to be fast, and otherwise halves the bracket.
-/

namespace Nonlinear.Root

open Scalar

inductive Step where
  /-- Half way to the counterpoint. -/
  | bisection
  /-- To the zero of the line through two points. -/
  | secant
  /-- To the zero of the inverse parabola through three points. -/
  | inverseQuadratic
  deriving DecidableEq, Repr

structure Bracket (α : Type) where
  previous : Sample α
  best : Sample α
  counter : Sample α
  deriving DecidableEq, Repr

namespace Bracket

variable {α : Type} [Scalar α]

/-- The bracket between two samples, the second taken for the better one. -/
def between (p q : Sample α) : Bracket α := ⟨p, q, p⟩

/-- Exchange the roles of best estimate and counterpoint when the latter has the smaller
value. -/
def keepBest (s : Bracket α) : Bracket α :=
  if magnitude s.counter.y < magnitude s.best.y then ⟨s.best, s.counter, s.best⟩ else s

def width (s : Bracket α) : α := s.counter.x - s.best.x

/-- The resolution at the best estimate: `2ε|b| + tolerance/2`. -/
def resolution (s : Bracket α) (tolerance : α) : α :=
  2.0 * epsilon * magnitude s.best.x + tolerance / 2.0

/-- Half the bracket is within the resolution, or the best value counts as zero. -/
def converged (s : Bracket α) (resolution functionTolerance : α) : Prop :=
  magnitude (s.width / 2.0) ≤ resolution ∨ magnitude s.best.y ≤ functionTolerance

instance (s : Bracket α) (r t : α) : Decidable (s.converged r t) := by
  unfold converged; infer_instance

/-- An interpolated step as a quotient `p / q` with `p` not negative. -/
structure Quotient (α : Type) where
  kind : Step
  p : α
  q : α

/-- The step to the zero of the interpolant.  Two distinct points give a line, three an
inverse parabola. -/
def interpolate (s : Bracket α) : Quotient α :=
  let ⟨kind, p, q⟩ : Quotient α :=
    if s.previous.x == s.counter.x then
      let t := s.best.y / s.previous.y
      ⟨.secant, s.width * t, 1.0 - t⟩
    else
      let u := s.previous.y / s.counter.y
      let r := s.best.y / s.counter.y
      let t := s.best.y / s.previous.y
      ⟨.inverseQuadratic,
        t * (s.width * u * (u - r) - (s.best.x - s.previous.x) * (r - 1.0)),
        (u - 1.0) * (r - 1.0) * (t - 1.0)⟩
  if 0.0 < p then ⟨kind, p, -q⟩ else ⟨kind, -p, q⟩

/-- The step ends inside the inner three quarters of the bracket and is shorter than half of
the step before. -/
def accepts (s : Bracket α) (step : Quotient α) (resolution lastStep : α) : Prop :=
  step.p < 0.75 * s.width * step.q - magnitude (resolution * step.q) / 2.0 ∧
    step.p < magnitude (lastStep * step.q / 2.0)

instance (s : Bracket α) (step : Quotient α) (r l : α) : Decidable (s.accepts step r l) := by
  unfold accepts; infer_instance

/-- The step to propose from the best estimate.  Interpolation is tried after a step that was
not tiny and that improved the value. -/
def propose (s : Bracket α) (resolution lastStep : α) (bisectionOnly : Bool) : Step × α :=
  let bisection := (Step.bisection, s.width / 2.0)
  if bisectionOnly ∨ magnitude lastStep < resolution ∨
      magnitude s.previous.y ≤ magnitude s.best.y then
    bisection
  else
    let step := s.interpolate
    if s.accepts step resolution lastStep then (step.kind, step.p / step.q) else bisection

/-- Take `p` as the best estimate; the estimate it replaces becomes the counterpoint where
that restores the change of sign. -/
def advance (s : Bracket α) (p : Sample α) : Bracket α :=
  { previous := s.best
    best := p
    counter :=
      if (0.0 < p.y ∧ 0.0 < s.counter.y) ∨ (p.y < 0.0 ∧ s.counter.y < 0.0) then s.best
      else s.counter }

end Bracket

end Nonlinear.Root
