/-! # JSON values

Integers and reals are kept apart, since a record may ask for one of them.  Members keep
their order.
-/

namespace Nonlinear

inductive Json where
  | null
  | bool (b : Bool)
  /-- A number written as an integer, of at most 64 bits. -/
  | whole (n : Int)
  | real (x : Float)
  | text (s : String)
  | array (items : List Json)
  | object (members : List (String × Json))

namespace Json

/-- The integers of a signed or unsigned 64-bit word. -/
def fitsWord (n : Int) : Bool := -9223372036854775808 ≤ n ∧ n < 18446744073709551616

/-- Put a member into an object; a later value for a key replaces the earlier one. -/
def insert (members : List (String × Json)) (key : String) (value : Json) :
    List (String × Json) :=
  if members.any (·.1 == key) then
    members.map fun m => if m.1 == key then (key, value) else m
  else members ++ [(key, value)]

def member? (key : String) : Json → Option Json
  | object members => members.lookup key
  | _ => none

end Json

end Nonlinear
