/-! # TOML values -/

namespace Nonlinear.Toml

inductive Value where
  | text (s : String)
  /-- An integer of 64 bits. -/
  | integer (n : Int)
  | real (x : Float)
  | boolean (b : Bool)
  /-- A date, a time, or both; nothing depends on which. -/
  | datetime
  | array (items : List Value)
  | table (entries : List (String × Value))

/-- A table by its keys, in the order in which they were defined. -/
abbrev Table := List (String × Value)

end Nonlinear.Toml
