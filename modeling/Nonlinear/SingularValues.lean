import Nonlinear.Scalar
import Nonlinear.DenseMatrix

/-! # Singular values

Plane rotations make the columns of a matrix orthogonal to each other; their lengths are
then its singular values.  The entries are scaled to at most one first, so that squares
neither overflow nor vanish.
-/

namespace Nonlinear.SingularValues

open Scalar

variable {α : Type} [Scalar α] {m n : Nat}

/-- A matrix by its columns. -/
abbrev Columns (α : Type) (m n : Nat) := Vector (Vector α m) n

def dot (x y : Vector α m) : α :=
  (x.toList.zip y.toList).foldl (fun sum (a, b) => sum + a * b) 0.0

/-- Rotate two columns in their plane until they are orthogonal.  Columns that already are,
to working accuracy, stay. -/
def rotate (p q : Vector α m) : Option (Vector α m × Vector α m) :=
  let pp := dot p p
  let qq := dot q q
  let pq := dot p q
  if magnitude pq ≤ epsilon * (sqrt pp * sqrt qq) then none
  else
    let z := (qq - pp) / (2.0 * pq)
    let t := (if z < 0.0 then -(1.0 : α) else 1.0) / (magnitude z + sqrt (1.0 + z * z))
    let c := 1.0 / sqrt (1.0 + t * t)
    let s := c * t
    some (p.zipWith (fun a b => c * a - s * b) q, p.zipWith (fun a b => s * a + c * b) q)

def pairs (n : Nat) : List (Fin n × Fin n) :=
  (List.finRange n).flatMap fun p => ((List.finRange n).filter (p < ·)).map (p, ·)

/-- Visit every pair of columns once, and say whether one was rotated. -/
def sweep (a : Columns α m n) : Columns α m n × Bool :=
  (pairs n).foldl
    (fun (a, moved) (p, q) =>
      match rotate (a.get p) (a.get q) with
      | none => (a, moved)
      | some (x, y) => ((a.set p x p.isLt).set q y q.isLt, true))
    (a, false)

/-- Sweep until nothing moves, at most `rounds` times. -/
def orthogonalize : (rounds : Nat) → Columns α m n → Columns α m n
  | 0, a => a
  | rounds + 1, a =>
    let (a, moved) := sweep a
    if moved then orthogonalize rounds a else a

/-- The lengths of the columns after the rotations. -/
def ofColumns (a : Columns α m n) : List α :=
  let scale := a.toList.foldl (fun s x => x.toList.foldl (fun s e => larger s (magnitude e)) s) 0.0
  if scale == 0.0 then List.replicate n 0.0
  else
    let scaled := a.map fun x => x.map (· / scale)
    (orthogonalize 60 scaled).toList.map fun x => sqrt (dot x x) * scale

/-- The singular values of a matrix, as many as the smaller of its dimensions. -/
def of (a : DenseMatrix α m n) : List α :=
  if n ≤ m then ofColumns (Vector.ofFn fun j : Fin n => Vector.ofFn fun i : Fin m => a.entry i j)
  else ofColumns a

end Nonlinear.SingularValues
