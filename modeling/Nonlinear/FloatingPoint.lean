import Nonlinear.Scalar

/-! # Binary floating point

The two arithmetics that programs compute in.  Passing from one to the other, and taking the
floor, is done on the exact value of a number: unpack, round once, pack.
-/

namespace Nonlinear

open Float.Model

namespace FloatingPoint

def exact (x : Float) : UnpackedFloat := .unpack .binary64 x.toBits.toBitVec

def exact32 (x : Float32) : UnpackedFloat := .unpack .binary32 x.toBits.toBitVec

/-- The double with a value that fits. -/
def pack (v : UnpackedFloat) : Float := .ofBits (.ofBitVec (v.pack .binary64))

/-- The single with a value that fits. -/
def pack32 (v : UnpackedFloat) : Float32 := .ofBits (.ofBitVec (v.pack .binary32))

/-- The nearest value of a format, ties to even. -/
def roundTo (format : Format) : UnpackedFloat → UnpackedFloat
  | .finite sign m e _ => .round format sign m e
  | v => v

/-- The largest integer that does not exceed a value. -/
def floorIn (format : Format) : UnpackedFloat → UnpackedFloat
  | .finite sign m e pos =>
    if 0 ≤ e then .finite sign m e pos
    else
      let unit := Nat.pow 2 (-e).toNat
      match sign with
      | .positive => .round format .positive (m / unit) 0
      | .negative => .round format .negative ((m + unit - 1) / unit) 0
  | v => v

end FloatingPoint

/-- Scalars in a binary format no wider than a double. -/
class FloatingPoint (α : Type) extends Scalar α where
  /-- The same number as a double. -/
  widen : α → Float
  /-- The nearest number to a double. -/
  narrow : Float → α
  /-- The nearest number to an integer. -/
  ofInt : Int → α
  floor : α → α
  /-- How many hexadecimal digits the bit pattern takes. -/
  patternWidth : Nat
  pattern : α → Nat

namespace FloatingPoint

instance : FloatingPoint Float where
  widen x := x
  narrow x := x
  ofInt := Float.ofInt
  floor x := pack (floorIn .binary64 (exact x))
  patternWidth := 16
  pattern x := x.toBits.toNat

instance : FloatingPoint Float32 where
  widen x := pack (roundTo .binary64 (exact32 x))
  narrow x := pack32 (roundTo .binary32 (exact x))
  ofInt := Float32.ofInt
  floor x := pack32 (floorIn .binary32 (exact32 x))
  patternWidth := 8
  pattern x := x.toBits.toNat

/-- The bit pattern as hexadecimal digits; there is one NaN. -/
def patternText {α : Type} [FloatingPoint α] (x : α) : String :=
  if Scalar.isNaN x then "nan"
  else
    let digits := Nat.toDigits 16 (pattern x)
    String.ofList (List.replicate (patternWidth α - digits.length) '0' ++ digits)

end FloatingPoint

end Nonlinear
