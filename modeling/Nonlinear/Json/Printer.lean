import Nonlinear.Json.Basic
import Nonlinear.Decimal.Shortest

/-! # Writing JSON

Values are written without blanks.  A real that is not finite has no numeral and is written
as `null`.
-/

namespace Nonlinear.Json

def hexDigit (n : Nat) : Char := Nat.digitChar (n % 16)

def escape (c : Char) : List Char :=
  if c = '"' then ['\\', '"']
  else if c = '\\' then ['\\', '\\']
  else if c < ' ' then ['\\', 'u', '0', '0', hexDigit (c.toNat / 16), hexDigit c.toNat]
  else [c]

def quoted (s : String) : String :=
  "\"" ++ String.ofList (s.toList.flatMap escape) ++ "\""

/-- A real always shows that it is one. -/
def realText (x : Float) : String :=
  if ¬ x.isFinite then "null"
  else
    let digits := Decimal.text x
    if digits.toList.contains '.' then digits else digits ++ ".0"

mutual

def print : Json → String
  | null => "null"
  | bool b => if b then "true" else "false"
  | whole n => toString n
  | real x => realText x
  | text s => quoted s
  | array items => "[" ++ ",".intercalate (printItems items) ++ "]"
  | object members => "\x7b" ++ ",".intercalate (printMembers members) ++ "\x7d"

def printItems : List Json → List String
  | [] => []
  | item :: items => item.print :: printItems items

def printMembers : List (String × Json) → List String
  | [] => []
  | (key, value) :: members => (quoted key ++ ":" ++ value.print) :: printMembers members

end

end Nonlinear.Json
