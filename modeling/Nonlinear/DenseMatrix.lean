/-! # Dense matrices

A matrix is a vector of its rows.
-/

namespace Nonlinear

/-- An `m × n` matrix by rows. -/
abbrev DenseMatrix (α : Type) (m n : Nat) := Vector (Vector α n) m

namespace DenseMatrix

variable {α : Type} {m n : Nat}

def ofFn (f : Fin m → Fin n → α) : DenseMatrix α m n :=
  Vector.ofFn fun i => Vector.ofFn fun j => f i j

def entry (a : DenseMatrix α m n) (i : Fin m) (j : Fin n) : α := (a.get i).get j

@[simp]
theorem entry_ofFn (f : Fin m → Fin n → α) (i : Fin m) (j : Fin n) :
    (ofFn f).entry i j = f i j := by
  show (Vector.ofFn fun i => Vector.ofFn fun j => f i j)[i][j] = f i j
  simp

def replicate (x : α) : DenseMatrix α m n := Vector.replicate m (Vector.replicate n x)

/-- Overwrite every entry with the same one. -/
def fill (x : α) (a : DenseMatrix α m n) : DenseMatrix α m n := a.map fun row => row.map fun _ => x

/-- All entries, row after row. -/
def entries (a : DenseMatrix α m n) : List α := a.toList.flatMap Vector.toList

def setColumn (a : DenseMatrix α m n) (j : Fin n) (column : Fin m → α) : DenseMatrix α m n :=
  Vector.ofFn fun i => (a.get i).set j (column i) j.isLt

/-- Overwrite one entry; a position outside the matrix is ignored. -/
def write (a : DenseMatrix α m n) (i j : Nat) (x : α) : DenseMatrix α m n :=
  if h : i < m then a.set i ((a.get ⟨i, h⟩).setIfInBounds j x) h else a

def diagonal (a : DenseMatrix α n n) : Vector α n := Vector.ofFn fun i => a.entry i i

end DenseMatrix

end Nonlinear
