import Nonlinear.Factorization

/-! # Linear solvers

Newton's method leaves its linear systems to a collaborator.  An answer need not have as many
components as the system.
-/

namespace Nonlinear.Newton

/-- Solves dense systems: the number of the call, the matrix, the right-hand side. -/
abbrev LinearSolver (α : Type) (n : Nat) :=
  Nat → DenseMatrix α n n → Vector α n → Option (Array α)

namespace LinearSolver

variable {α : Type} {n : Nat}

def lu [Scalar α] (solver : LuSolver α) : LinearSolver α n :=
  fun _ a b => (solver.solve a b).map Vector.toArray

def refuse : LinearSolver α n := fun _ _ _ => none

/-- Takes every matrix for a diagonal one. -/
def diagonal [Div α] : LinearSolver α n :=
  fun _ a b => some (Array.ofFn fun i : Fin n => b.get i / a.entry i i)

/-- Gives prepared answers, one for each call. -/
def scripted (steps : List (Option (Array α))) : LinearSolver α n :=
  fun k _ _ => steps[k - 1]?.join

end LinearSolver

end Nonlinear.Newton
