import Nonlinear.FloatingPoint
import Nonlinear.Decimal.Scientific
import Nonlinear.SingularValues

/-! # Condition numbers

The ratio of the largest to the smallest singular value.  Only its leading digits mean
anything, and only those are shown.
-/

namespace Nonlinear

open Scalar

/-- How far a matrix is from being singular. -/
inductive Condition (α : Type) where
  /-- The matrix is empty or has an entry that is not finite. -/
  | undefined
  | infinite
  | ratio (value : α)
  deriving DecidableEq, Repr

variable {α : Type}

/-- The condition of a matrix in the spectral norm. -/
def DenseMatrix.condition [Scalar α] {m n : Nat} (a : DenseMatrix α m n) : Condition α :=
  if ¬ a.entries.all isFinite then .undefined
  else match SingularValues.of a with
  | [] => .undefined
  | s :: ss =>
    let largest := ss.foldl larger s
    let smallest := ss.foldl (fun x y => if y < x then y else x) s
    if smallest == 0.0 then .infinite else .ratio (largest / smallest)

namespace Condition

/-- Six digits below a million, three below ten thousand million, and no more than that
above. -/
def text [FloatingPoint α] : Condition α → String
  | undefined => "nan"
  | infinite => "huge"
  | ratio value =>
    match FloatingPoint.exact (FloatingPoint.widen value) with
    | .notANumber => "nan"
    | .infinity _ => "huge"
    | .zero _ => "0.00000e0"
    | .finite _ m e _ =>
      if 1e10 ≤ value then "huge"
      else
        (Decimal.Binary.scientific ⟨m, e⟩ (if 1e6 ≤ value then 2 else 5)).scientificText

end Condition

end Nonlinear
