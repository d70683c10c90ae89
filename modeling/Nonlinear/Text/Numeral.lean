/-! # Numerals

What strings of digits stand for.
-/

namespace Nonlinear.Text

/-- The text in front of a reader. -/
abbrev Input := List Char

/-- The value of a hexadecimal digit. -/
def hexValue? (c : Char) : Option Nat :=
  if '0' ≤ c ∧ c ≤ '9' then some (c.toNat - 48)
  else if 'a' ≤ c ∧ c ≤ 'f' then some (c.toNat - 87)
  else if 'A' ≤ c ∧ c ≤ 'F' then some (c.toNat - 55)
  else none

def isHexDigit (c : Char) : Bool := (hexValue? c).isSome

/-- The natural number with these digits in a base. -/
def digitsValue (base : Nat) (digits : List Char) : Nat :=
  digits.foldl (fun n c => base * n + (hexValue? c).getD 0) 0

/-- The double nearest to `± m · 10 ^ e`. -/
def nearestDouble (negative : Bool) (m : Nat) (e : Int) : Float :=
  let x := Float.ofScientific m (e < 0) e.natAbs
  if negative then -x else x

/-- Exactly `n` hexadecimal digits. -/
def readHex? (n : Nat) (input : Input) : Option (Nat × Input) :=
  let digits := input.take n
  if digits.length = n ∧ digits.all isHexDigit then
    some (digitsValue 16 digits, input.drop n)
  else none

end Nonlinear.Text
