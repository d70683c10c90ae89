import Nonlinear.Decimal.Grid

/-! # Rounded decimals

A value to a fixed number of significant digits, rounded to the nearest with ties to even.
-/

namespace Nonlinear.Decimal

namespace Binary

/-- The nearest point of a grid, ties to even. -/
def round (v : Binary) (g : Int) : Nat :=
  let (num, den) := v.inUnits g
  let down := num / den
  match compare (2 * (num % den)) den with
  | .lt => down
  | .eq => down + down % 2
  | .gt => down + 1

/-- The exponent of the leading digit. -/
def leading (v : Binary) : Int :=
  ((List.range 8).findSome? fun (i : Nat) =>
    let g := v.ceilingExponent - i
    if v.compareGrid 1 g = .gt then none else some g).getD 0

/-- One digit before the point and `places` behind it, with the exponent of the result. -/
def scientific (v : Binary) (places : Nat) : Point :=
  let e := v.leading
  let n := v.round (e - places)
  if n < Nat.pow 10 (places + 1) then ⟨n, e⟩ else ⟨n / 10, e + 1⟩

end Binary

/-- Write `d.ddd`, the exponent after an `e` without a plus sign. -/
def Point.scientificText (p : Point) : String :=
  match (toString p.n).toList with
  | [] => ""
  | d :: rest =>
    let point := if rest.isEmpty then [] else ['.']
    String.ofList (d :: point ++ rest) ++ "e" ++ toString p.g

end Nonlinear.Decimal
