import Nonlinear.Scalar
import Nonlinear.DenseMatrix
import Nonlinear.Failure
import Nonlinear.Run

/-! # Systems of equations

The functions of a system write their values into a buffer of the caller.  They may leave
components as they find them, so a buffer is an argument as well as a result.  Like a scalar
function, each may depend on the number of the call, counted from one.
-/

namespace Nonlinear

open Scalar

/-- What a function leaves in a buffer, and the error it reported, if any. -/
structure Written (β : Type) where
  contents : β
  error : Option EvaluationError := none
  deriving DecidableEq, Repr

/-- A residual `F : αⁿ → αⁿ`: the number of the call, the point, the buffer. -/
abbrev VectorFunction (α : Type) (n : Nat) := Nat → Vector α n → Vector α n → Written (Vector α n)

/-- The Jacobian of a residual: the number of the call, the point, the buffer. -/
abbrev JacobianFunction (α : Type) (n : Nat) :=
  Nat → Vector α n → DenseMatrix α n n → Written (DenseMatrix α n n)

structure VectorCall (α : Type) (n : Nat) where
  point : Vector α n
  answer : Written (Vector α n)

/-- What work on a system does that can be seen from outside: it calls its functions, it
hands linear systems to a solver, and it reports events `ε`. -/
inductive SystemEntry (α : Type) (n : Nat) (ε : Type) where
  | residual (call : VectorCall α n)
  | jacobian (point : Vector α n) (answer : Written (DenseMatrix α n n))
  | linear (a : DenseMatrix α n n) (b : Vector α n) (answer : Option (Array α))
  | event (event : ε)

namespace SystemEntry

variable {α ε : Type} {n : Nat}

/-- The points at which the residual was called, in order. -/
def residualPoints (trace : List (SystemEntry α n ε)) : List (Vector α n) :=
  trace.filterMap fun
    | residual call => some call.point
    | _ => none

/-- The points at which the Jacobian was called, in order. -/
def jacobianPoints (trace : List (SystemEntry α n ε)) : List (Vector α n) :=
  trace.filterMap fun
    | jacobian point _ => some point
    | _ => none

def systems (trace : List (SystemEntry α n ε)) : List (DenseMatrix α n n × Vector α n) :=
  trace.filterMap fun
    | linear a b _ => some (a, b)
    | _ => none

def events (trace : List (SystemEntry α n ε)) : List ε :=
  trace.filterMap fun
    | event e => some e
    | _ => none

end SystemEntry

variable {α ε : Type} {n : Nat}

abbrev SystemRun (α : Type) (n : Nat) (ε : Type) := Run (SystemEntry α n ε) (Failure α)

/-- What a function wrote, unless it reported an error. -/
def Written.outcome {β : Type} (w : Written β) : Except (Failure α) β :=
  match w.error with
  | some e => .error (.evaluation (.reported e))
  | none => .ok w.contents

namespace VectorFunction

/-- The `k`-th call of a residual. -/
def call (f : VectorFunction α n) (k : Nat) (x buffer : Vector α n) :
    SystemRun α n ε (Vector α n) :=
  let answer := f k x buffer
  ⟨[.residual ⟨x, answer⟩], answer.outcome⟩

/-- The same residual with its calls counted from `k + 1`. -/
def after (f : VectorFunction α n) (k : Nat) : VectorFunction α n := fun i => f (k + i)

end VectorFunction

/-- The `k`-th call of a Jacobian. -/
def JacobianFunction.call (jacobian : JacobianFunction α n) (k : Nat) (x : Vector α n)
    (buffer : DenseMatrix α n n) : SystemRun α n ε (DenseMatrix α n n) :=
  let answer := jacobian k x buffer
  ⟨[.jacobian x answer], answer.outcome⟩

end Nonlinear
