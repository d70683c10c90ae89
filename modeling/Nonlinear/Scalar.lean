/-! # Scalars

Every solver is written once, over a type of numbers that offers the operations of `Scalar`.
In binary floating point each operation rounds and a comparison with a NaN fails; in an
ordered field nothing rounds and every number is finite.  The constants that an arithmetic
owes to its rounding (`epsilon` and what is derived from it) are part of the class, so an
exact reading may choose them freely.
-/

namespace Nonlinear

/-- Numbers the solvers can compute with.  `<`, `≤` and `==` are the comparisons of the
arithmetic itself and need not be those of an order. -/
class Scalar (α : Type) where
  [toAdd : Add α]
  [toSub : Sub α]
  [toMul : Mul α]
  [toDiv : Div α]
  [toNeg : Neg α]
  [toLT : LT α]
  [toLE : LE α]
  [toBEq : BEq α]
  [toOfScientific : OfScientific α]
  [toDecidableLT : DecidableLT α]
  [toDecidableLE : DecidableLE α]
  magnitude : α → α
  sqrt : α → α
  isFinite : α → Bool
  isNaN : α → Bool
  /-- The sign bit: set on a negative zero as well. -/
  isNegative : α → Bool
  /-- The distance from one to the next larger number. -/
  epsilon : α
  /-- The relative accuracy to which a minimiser can be located. -/
  sqrtEpsilon : α
  /-- The fraction of an interval taken by a golden-section step, `(3 − √5) / 2`. -/
  golden : α

section Operations

variable {α : Type} [Scalar α]

instance (priority := 50) addOfScalar : Add α := Scalar.toAdd

instance (priority := 50) subOfScalar : Sub α := Scalar.toSub

instance (priority := 50) mulOfScalar : Mul α := Scalar.toMul

instance (priority := 50) divOfScalar : Div α := Scalar.toDiv

instance (priority := 50) negOfScalar : Neg α := Scalar.toNeg

instance (priority := 50) ltOfScalar : LT α := Scalar.toLT

instance (priority := 50) leOfScalar : LE α := Scalar.toLE

instance (priority := 50) beqOfScalar : BEq α := Scalar.toBEq

instance (priority := 50) ofScientificOfScalar : OfScientific α := Scalar.toOfScientific

instance (priority := 50) decidableLTOfScalar : DecidableLT α := Scalar.toDecidableLT

instance (priority := 50) decidableLEOfScalar : DecidableLE α := Scalar.toDecidableLE

end Operations

namespace Scalar

variable {α : Type} [Scalar α]

/-- A count as a number of the arithmetic, rounded to the nearest. -/
def ofNat (n : Nat) : α := OfScientific.ofScientific n false 0

/-- The larger operand; a NaN gives way to the other one. -/
def larger (x y : α) : α :=
  if x < y then y else if isNaN x then y else x

end Scalar

instance : Scalar Float where
  magnitude := Float.abs
  sqrt := Float.sqrt
  isFinite := Float.isFinite
  isNaN := Float.isNaN
  isNegative x := x.toBits >>> 63 == 1
  epsilon := 1 / 4503599627370496
  sqrtEpsilon := Float.sqrt (1 / 4503599627370496)
  golden := 0.5 * (3.0 - Float.sqrt 5.0)

instance : Scalar Float32 where
  magnitude := Float32.abs
  sqrt := Float32.sqrt
  isFinite := Float32.isFinite
  isNaN := Float32.isNaN
  isNegative x := x.toBits >>> 31 == 1
  epsilon := 1 / 8388608
  sqrtEpsilon := Float32.sqrt (1 / 8388608)
  golden := 0.5 * (3.0 - Float32.sqrt 5.0)

end Nonlinear
