import Nonlinear.FloatingPoint
import Nonlinear.Decimal.Grid

/-! # Shortest decimals

The decimal with the fewest digits that reads back as the same double, and of those the
nearest.  Grids are tried from coarse to fine; if a grid has a point in the rounding interval
of a value, one of the value's two neighbours on that grid is such a point.
-/

namespace Nonlinear.Decimal

open Float.Model

namespace Binary

/-- The reals that round to a double lie between these bounds, in quarters of its last place;
below a power of two the spacing halves. -/
def lowerQuarters (v : Binary) : Nat :=
  if v.m = 4503599627370496 ∧ -1074 < v.q then 4 * v.m - 1 else 4 * v.m - 2

def upperQuarters (v : Binary) : Nat := 4 * v.m + 2

/-- Whether `n · 10 ^ g` reads back as the value.  The bounds do iff the last binary digit is
even. -/
def readsBack (v : Binary) (n : Nat) (g : Int) : Bool :=
  let below := compareGrid ⟨v.lowerQuarters, v.q - 2⟩ n g
  let above := compareGrid ⟨v.upperQuarters, v.q - 2⟩ n g
  if v.m % 2 = 0 then below != .lt && above != .gt else below == .gt && above == .lt

/-- The point of a grid that reads back and is nearest to the value; of two equally near ones
the larger. -/
def nearest? (v : Binary) (g : Int) : Option Point :=
  let (num, den) := v.inUnits g
  let down := num / den
  match v.readsBack down g, v.readsBack (down + 1) g with
  | true, true => some ⟨if 2 * (num % den) < den then down else down + 1, g⟩
  | true, false => some ⟨down, g⟩
  | false, true => some ⟨down + 1, g⟩
  | false, false => none

/-- Seventeen digits always suffice. -/
def shortest (v : Binary) : Point :=
  ((List.range 24).findSome? fun (i : Nat) => v.nearest? (v.ceilingExponent - i)).getD ⟨0, 0⟩

end Binary

/-- Positional digits, without an exponent and without a point behind a whole number. -/
def Point.positional (p : Point) : String :=
  let digits := toString p.n
  if 0 ≤ p.g then digits ++ String.ofList (List.replicate p.g.toNat '0')
  else
    let places := (-p.g).toNat
    let padded := List.replicate (places + 1 - digits.length) '0' ++ digits.toList
    String.ofList (padded.take (padded.length - places) ++ '.' ::
      padded.drop (padded.length - places))

/-- A double in words: shortest digits, written out. -/
def text (x : Float) : String :=
  let signed (sign : UnpackedFloat.Sign) (body : String) : String :=
    match sign with
    | .positive => body
    | .negative => "-" ++ body
  match FloatingPoint.exact x with
  | .notANumber => "NaN"
  | .infinity sign => signed sign "inf"
  | .zero sign => signed sign "0"
  | .finite sign m e _ => signed sign (Binary.shortest ⟨m, e⟩).positional

end Nonlinear.Decimal
