import Nonlinear.Scalar
import Nonlinear.DenseMatrix

/-! # Triangular factorization

Elimination with partial pivoting, and the solution of a square system by it.  The factors
share one matrix: on and above the diagonal the upper factor, below it the lower factor,
whose own diagonal is one.
-/

namespace Nonlinear

open Scalar

/-- The factors, and the exchanges of rows that were made, in order. -/
structure Factorization (α : Type) (n : Nat) where
  factors : DenseMatrix α n n
  swaps : List (Fin n × Fin n)
  deriving Repr

namespace Factorization

variable {α : Type} [Scalar α] {n : Nat}

/-- The first row from `i` on with the largest magnitude in column `i`. -/
def pivotRow (a : DenseMatrix α n n) (i : Fin n) : Fin n :=
  ((List.finRange n).filter (i < ·)).foldl
    (fun p r => if magnitude (a.entry p i) < magnitude (a.entry r i) then r else p) i

/-- Clear column `i` below the diagonal, leaving the multipliers in its place. -/
def clearColumn (a : DenseMatrix α n n) (i : Fin n) : DenseMatrix α n n :=
  let inverse := 1.0 / a.entry i i
  .ofFn fun r c =>
    if i < r ∧ i ≤ c then
      let multiplier := a.entry r i * inverse
      if c = i then multiplier else -a.entry i c * multiplier + a.entry r c
    else a.entry r c

/-- One column of the elimination.  A column without a pivot is passed over. -/
def eliminate (s : Factorization α n) (i : Fin n) : Factorization α n :=
  let p := pivotRow s.factors i
  if s.factors.entry p i == 0.0 then s
  else ⟨clearColumn (s.factors.swap i p i.isLt p.isLt) i, s.swaps ++ [(i, p)]⟩

def of (a : DenseMatrix α n n) : Factorization α n :=
  (List.finRange n).foldl eliminate ⟨a, []⟩

def pivots (s : Factorization α n) : Vector α n := s.factors.diagonal

/-- The right-hand side with the rows exchanged alike. -/
def permute (s : Factorization α n) (b : Vector α n) : Vector α n :=
  s.swaps.foldl (fun b (i, p) => b.swap i p i.isLt p.isLt) b

/-- Take the multiple of row `i` that the lower factor holds from the rows below. -/
def forwardStep (s : Factorization α n) (b : Vector α n) (i : Fin n) : Vector α n :=
  Vector.ofFn fun r => if i < r then -b.get i * s.factors.entry r i + b.get r else b.get r

/-- Solve for component `i` and take its share from the rows above. -/
def backwardStep (s : Factorization α n) (b : Vector α n) (i : Fin n) : Option (Vector α n) :=
  if s.factors.entry i i == 0.0 then none
  else
    let x := b.get i / s.factors.entry i i
    some (Vector.ofFn fun r =>
      if r = i then x else if r < i then -x * s.factors.entry r i + b.get r else b.get r)

/-- The solution of the factored system, if no pivot is zero. -/
def solve (s : Factorization α n) (b : Vector α n) : Option (Vector α n) :=
  (List.finRange n).reverse.foldlM s.backwardStep
    ((List.finRange n).foldl s.forwardStep (s.permute b))

end Factorization

/-- Solves square systems, taking small pivots for zero. -/
structure LuSolver (α : Type) where
  pivotTolerance : α
  deriving DecidableEq, Repr

namespace LuSolver

variable {α : Type} [Scalar α]

def standard : LuSolver α := ⟨epsilon⟩

/-- Every pivot is zero, or one is at most the tolerance times the size of the system and
the largest pivot. -/
def singular {n : Nat} (s : LuSolver α) (pivots : Vector α n) : Prop :=
  let largest := pivots.toList.foldl (fun m p => larger m (magnitude p)) 0.0
  (largest == 0.0) = true ∨
    ∃ p ∈ pivots.toList, magnitude p ≤ s.pivotTolerance * ofNat n * largest

instance {n : Nat} (s : LuSolver α) (pivots : Vector α n) : Decidable (s.singular pivots) := by
  unfold singular; infer_instance

/-- The solution of `a · x = b`, if the matrix is regular in this sense and all numbers on
the way in and out are finite. -/
def solve {n : Nat} (s : LuSolver α) (a : DenseMatrix α n n) (b : Vector α n) :
    Option (Vector α n) :=
  if n = 0 ∨ ¬ a.entries.all isFinite ∨ ¬ b.all isFinite then none
  else
    let lu := Factorization.of a
    if s.singular lu.pivots then none
    else (lu.solve b).filter (·.all isFinite)

/-- Like `solve`, for a system of any shape; one that is not square has no solution. -/
def solve? {m n k : Nat} (s : LuSolver α) (a : DenseMatrix α m n) (b : Vector α k) :
    Option (Vector α m) :=
  if hn : n = m then
    if hk : k = m then s.solve (a.map (·.cast hn)) (b.cast hk) else none
  else none

end LuSolver

end Nonlinear
