import Nonlinear.FloatingPoint
import Nonlinear.Search.Sample
import Nonlinear.System

/-! # Formulas

Functions given as data.  A formula uses only operations that round once, so its value is
determined by the arithmetic, and it may depend on the number of the call or report an error.
-/

namespace Nonlinear

open Scalar

inductive Comparison where
  | lt
  | le
  | eq
  deriving DecidableEq, Repr

inductive Formula (α : Type) where
  | const (value : α)
  | component (i : Nat)
  | callNumber
  | add (a b : Formula α)
  | sub (a b : Formula α)
  | mul (a b : Formula α)
  | div (a b : Formula α)
  | neg (a : Formula α)
  | abs (a : Formula α)
  | sqrt (a : Formula α)
  | floor (a : Formula α)
  /-- Repeated multiplication, from the left. -/
  | power (a : Formula α) (n : Nat)
  /-- Of the last two formulas only the chosen one is evaluated. -/
  | choose (c : Comparison) (a b yes no : Formula α)
  | fail (error : EvaluationError)
  /-- The `k`-th value on call `k`, and the formula once the values are used up. -/
  | sequence (values : List α) (rest : Formula α)

namespace Formula

variable {α : Type} [FloatingPoint α]

def Comparison.holds (c : Comparison) (x y : α) : Bool :=
  match c with
  | .lt => x < y
  | .le => x ≤ y
  | .eq => x == y

/-- `((x * x) * x) …` with `n - 1` products, and one for `n = 0`. -/
def powerOf (x : α) : Nat → α
  | 0 => 1.0
  | 1 => x
  | n + 2 => powerOf x (n + 1) * x

/-- The value on call `k` at a point.  Operands are evaluated from left to right and the
first error ends the evaluation. -/
def eval (k : Nat) (point : Array α) : Formula α → Except EvaluationError α
  | const value => pure value
  | component i => pure (point.getD i (0.0 / 0.0))
  | callNumber => pure (ofNat k)
  | add a b => return (← a.eval k point) + (← b.eval k point)
  | sub a b => return (← a.eval k point) - (← b.eval k point)
  | mul a b => return (← a.eval k point) * (← b.eval k point)
  | div a b => return (← a.eval k point) / (← b.eval k point)
  | neg a => return -(← a.eval k point)
  | abs a => return Scalar.magnitude (← a.eval k point)
  | sqrt a => return Scalar.sqrt (← a.eval k point)
  | floor a => return FloatingPoint.floor (← a.eval k point)
  | power a n => return powerOf (← a.eval k point) n
  | choose c a b yes no => do
    let x ← a.eval k point
    let y ← b.eval k point
    if Comparison.holds c x y then yes.eval k point else no.eval k point
  | fail error => throw error
  | sequence values rest =>
    match values[k - 1]? with
    | some value => pure value
    | none => rest.eval k point

/-- Like `eval`, with a NaN in place of an error. -/
def evalTotal (k : Nat) (point : Array α) (e : Formula α) : Except EvaluationError α :=
  match e.eval k point with
  | .ok y => .ok y
  | .error _ => .ok (0.0 / 0.0)

/-- How formulas are evaluated: with errors, or with NaNs in their place. -/
abbrev Evaluator (α : Type) := Nat → Array α → Formula α → Except EvaluationError α

def toScalarFunction (ev : Evaluator α) (e : Formula α) : ScalarFunction α :=
  fun k x => ev k #[x] e

/-- Write components from index `i` on, in order.  A missing formula leaves its component. -/
def writeComponents {m : Nat} (ev : Formula α → Except EvaluationError α) :
    List (Option (Formula α)) → (i : Nat) → Vector α m → Written (Vector α m)
  | [], _, buffer => ⟨buffer, none⟩
  | none :: rest, i, buffer => writeComponents ev rest (i + 1) buffer
  | some e :: rest, i, buffer =>
    match ev e with
    | .ok y => writeComponents ev rest (i + 1) (buffer.setIfInBounds i y)
    | .error error => ⟨buffer, some error⟩

/-- Write matrix entries, in order. -/
def writeEntries {m n : Nat} (ev : Formula α → Except EvaluationError α) :
    List (Nat × Nat × Formula α) → DenseMatrix α m n → Written (DenseMatrix α m n)
  | [], buffer => ⟨buffer, none⟩
  | (i, j, e) :: rest, buffer =>
    match ev e with
    | .ok y => writeEntries ev rest (buffer.write i j y)
    | .error error => ⟨buffer, some error⟩

def toVectorFunction {n : Nat} (ev : Evaluator α) (components : List (Option (Formula α))) :
    VectorFunction α n :=
  fun k x buffer => writeComponents (ev k x.toArray) components 0 buffer

def toJacobianFunction {n : Nat} (ev : Evaluator α) (writes : List (Nat × Nat × Formula α)) :
    JacobianFunction α n :=
  fun k x buffer => writeEntries (ev k x.toArray) writes buffer

end Formula

end Nonlinear
