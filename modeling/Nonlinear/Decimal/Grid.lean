/-! # Decimal grids

The multiples of a power of ten, set against an exact binary value `m · 2 ^ q`.  All
comparisons are made on natural numbers.
-/

namespace Nonlinear.Decimal

/-- A positive binary value `m · 2 ^ q`. -/
structure Binary where
  m : Nat
  q : Int
  deriving DecidableEq, Repr

namespace Binary

/-- The value in units of `10 ^ g`, as a numerator and a denominator. -/
def inUnits (v : Binary) (g : Int) : Nat × Nat :=
  (v.m * Nat.pow 2 v.q.toNat * Nat.pow 10 (-g).toNat,
    Nat.pow 2 (-v.q).toNat * Nat.pow 10 g.toNat)

/-- How `n · 10 ^ g` compares with the value. -/
def compareGrid (v : Binary) (n : Nat) (g : Int) : Ordering :=
  let (num, den) := v.inUnits g
  compare (n * den) num

/-- Some `g` with the value below `10 ^ g`, and not by many powers of ten. -/
def ceilingExponent (v : Binary) : Int :=
  (v.m.log2 + 1 + v.q) * 30103 / 100000 + 2

end Binary

structure Point where
  n : Nat
  g : Int
  deriving DecidableEq, Repr

end Nonlinear.Decimal
