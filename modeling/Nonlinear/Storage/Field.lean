import Nonlinear.FloatingPoint
import Nonlinear.Json.Basic
import Nonlinear.ResidualNorm
import Nonlinear.Toml.Basic

/-! # Fields of stored records

A record is stored as a table of its fields.  What a field accepts is said once for each
format of values; a record with defaults then is its defaults with the stored fields put in
their place.
-/

namespace Nonlinear

/-- How values `V` of a format are read as field values. -/
class FieldSource (V : Type) where
  number? {α : Type} [FloatingPoint α] : V → Option α
  size? : V → Option Nat
  flag? : V → Option Bool
  norm? : V → Option ResidualNorm

abbrev Fields (V : Type) := String → Option V

/-- A field that has a default. -/
def Fields.getD {V β : Type} (fields : Fields V) (name : String) (read : V → Option β)
    (default : β) : Option β :=
  match fields name with
  | none => some default
  | some v => read v

def Fields.get {V β : Type} (fields : Fields V) (name : String) (read : V → Option β) :
    Option β := (fields name).bind read

/-- Integers are numbers too.  A norm is a name, or an object that has the name as its only
key. -/
instance : FieldSource Json where
  number?
    | .whole n => some (FloatingPoint.ofInt n)
    | .real x => some (FloatingPoint.narrow x)
    | _ => none
  size?
    | .whole n => if 0 ≤ n then some n.toNat else none
    | _ => none
  flag?
    | .bool b => some b
    | _ => none
  norm?
    | .text s => ResidualNorm.ofName? s
    | .object [(name, .null)] => ResidualNorm.ofName? name
    | _ => none

/-- Integers are numbers too.  A norm is a name, or a table that has the name as its only key
and nothing behind it. -/
instance : FieldSource Toml.Value where
  number?
    | .integer n => some (FloatingPoint.ofInt n)
    | .real x => some (FloatingPoint.narrow x)
    | _ => none
  size?
    | .integer n => if 0 ≤ n then some n.toNat else none
    | _ => none
  flag?
    | .boolean b => some b
    | _ => none
  norm?
    | .text s => ResidualNorm.ofName? s
    | .table [(name, .table [])] => ResidualNorm.ofName? name
    | .table [(name, .array [])] => ResidualNorm.ofName? name
    | _ => none

/-- The fields of a JSON value: by name, or by position in the order of the names.  There may
be fewer items than names and not more. -/
def Json.fields? (names : List String) : Json → Option (Fields Json)
  | .object members => some fun name => members.lookup name
  | .array items =>
    if items.length ≤ names.length then some fun name => (names.zip items).lookup name
    else none
  | _ => none

end Nonlinear
