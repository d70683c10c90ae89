import Nonlinear.Scalar
import Nonlinear.Failure
import Nonlinear.Run

/-! # Samples of a scalar function

The searches know their function only through the values it gave at the points they asked
for.  A value that is not finite never becomes a sample.
-/

namespace Nonlinear

open Scalar

/-- A scalar function.  Its value may depend on the number of the call, counted from one. -/
abbrev ScalarFunction (α : Type) := Nat → α → Except EvaluationError α

structure Sample (α : Type) where
  x : α
  y : α
  deriving DecidableEq, Repr

/-- What a scalar search does that can be seen from outside: it calls its function, and it
reports events `ε`. -/
inductive SearchEntry (α ε : Type) where
  | call (x : α) (answer : Except EvaluationError α)
  | event (event : ε)

namespace SearchEntry

variable {α ε : Type}

def arguments (trace : List (SearchEntry α ε)) : List α :=
  trace.filterMap fun
    | call x _ => some x
    | event _ => none

def events (trace : List (SearchEntry α ε)) : List ε :=
  trace.filterMap fun
    | call _ _ => none
    | event e => some e

end SearchEntry

variable {α ε : Type} [Scalar α]

/-- A step of at least the resolution, in the direction of the proposed one; a step that is
not positive goes down. -/
def lengthen (resolution step : α) : α :=
  if magnitude step < resolution then (if 0.0 < step then resolution else -resolution) else step

namespace ScalarFunction

/-- The `k`-th call of `f`, at `x`. -/
def sample (f : ScalarFunction α) (k : Nat) (x : α) :
    Run (SearchEntry α ε) (Failure α) (Sample α) :=
  let answer := f k x
  ⟨[.call x answer],
    match answer with
    | .error e => .error (.evaluation (.reported e))
    | .ok y => if isFinite y then .ok ⟨x, y⟩ else .error (.evaluation (.nonFiniteValue x))⟩

end ScalarFunction

end Nonlinear
