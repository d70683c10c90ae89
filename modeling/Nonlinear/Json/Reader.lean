import Nonlinear.Json.Basic
import Nonlinear.Text.Numeral

/-! # Reading JSON

A reader takes the characters in front of it and returns the rest.  The fuel of the nested
readers bounds the number of their calls, and the length of the text is always enough.
-/

namespace Nonlinear.Json

open Text

def skipBlanks : Input → Input :=
  List.dropWhile fun c => c = ' ' ∨ c = '\t' ∨ c = '\n' ∨ c = '\r'

def simpleEscape? : Char → Option Char
  | '"' => some '"'
  | '\\' => some '\\'
  | '/' => some '/'
  | 'b' => some '\x08'
  | 'f' => some '\x0c'
  | 'n' => some '\n'
  | 'r' => some '\r'
  | 't' => some '\t'
  | _ => none

/-- The escape behind a backslash.  Two surrogate units make one character, and a single one
is malformed. -/
def readEscape? : Input → Option (Char × Input)
  | 'u' :: rest => do
    let (unit, rest) ← readHex? 4 rest
    if unit < 0xD800 ∨ 0xE000 ≤ unit then pure (Char.ofNat unit, rest)
    else if 0xDC00 ≤ unit then none
    else match rest with
      | '\\' :: 'u' :: rest => do
        let (low, rest) ← readHex? 4 rest
        if 0xDC00 ≤ low ∧ low < 0xE000 then
          pure (Char.ofNat (0x10000 + (unit - 0xD800) * 0x400 + (low - 0xDC00)), rest)
        else none
      | _ => none
  | c :: rest => (simpleEscape? c).map (·, rest)
  | [] => none

/-- The characters of a string up to its closing quote. -/
def readCharacters? : (fuel : Nat) → Input → Option (List Char × Input)
  | 0, _ => none
  | _, [] => none
  | _, '"' :: rest => some ([], rest)
  | fuel + 1, '\\' :: rest => do
    let (c, rest) ← readEscape? rest
    let (cs, rest) ← readCharacters? fuel rest
    pure (c :: cs, rest)
  | fuel + 1, c :: rest =>
    if c < ' ' then none
    else do
      let (cs, rest) ← readCharacters? fuel rest
      pure (c :: cs, rest)

def readDigits? (input : Input) : Option (List Char × Input) :=
  match input.takeWhile Char.isDigit with
  | [] => none
  | digits => some (digits, input.dropWhile Char.isDigit)

def readFraction? : Input → Option (List Char × Input)
  | '.' :: rest => readDigits? rest
  | rest => some ([], rest)

def readExponent? : Input → Option (Option Int × Input)
  | c :: rest =>
    if c = 'e' ∨ c = 'E' then
      let (sign, rest) : Int × Input := match rest with
        | '-' :: rest => (-1, rest)
        | '+' :: rest => (1, rest)
        | rest => (1, rest)
      (readDigits? rest).map fun (digits, rest) => (some (sign * digitsValue 10 digits), rest)
    else some (none, c :: rest)
  | [] => some (none, [])

/-- A number.  A negative zero is a real, as is an integer that does not fit a word. -/
def readNumber? (input : Input) : Option (Json × Input) := do
  let (negative, rest) := match input with
    | '-' :: rest => (true, rest)
    | rest => (false, rest)
  let (digits, rest) ← readDigits? rest
  if 1 < digits.length ∧ digits.head? = some '0' then none
  else
    let isReal := rest.head? = some '.'
    let (fraction, rest) ← readFraction? rest
    let (exponent, rest) ← readExponent? rest
    let m := digitsValue 10 (digits ++ fraction)
    let n : Int := if negative then -m else m
    if isReal ∨ exponent.isSome ∨ (negative ∧ m = 0) ∨ ¬ fitsWord n then
      pure (real (nearestDouble negative m (exponent.getD 0 - fraction.length)), rest)
    else pure (whole n, rest)

mutual

def readValue? : (fuel : Nat) → Input → Option (Json × Input)
  | 0, _ => none
  | fuel + 1, input =>
    match skipBlanks input with
    | 'n' :: 'u' :: 'l' :: 'l' :: rest => some (null, rest)
    | 't' :: 'r' :: 'u' :: 'e' :: rest => some (bool true, rest)
    | 'f' :: 'a' :: 'l' :: 's' :: 'e' :: rest => some (bool false, rest)
    | '"' :: rest => do
      let (cs, rest) ← readCharacters? (rest.length + 1) rest
      pure (text (String.ofList cs), rest)
    | '[' :: rest =>
      match skipBlanks rest with
      | ']' :: rest => some (array [], rest)
      | rest => do
        let (items, rest) ← readItems? fuel rest
        pure (array items, rest)
    | '\x7b' :: rest =>
      match skipBlanks rest with
      | '\x7d' :: rest => some (object [], rest)
      | rest => do
        let (members, rest) ← readMembers? fuel [] rest
        pure (object members, rest)
    | rest => readNumber? rest

/-- The items of an array up to its closing bracket. -/
def readItems? : (fuel : Nat) → Input → Option (List Json × Input)
  | 0, _ => none
  | fuel + 1, input => do
    let (item, rest) ← readValue? fuel input
    match skipBlanks rest with
    | ',' :: rest => do
      let (items, rest) ← readItems? fuel rest
      pure (item :: items, rest)
    | ']' :: rest => pure ([item], rest)
    | _ => none

/-- The members of an object up to its closing brace, added to those already read. -/
def readMembers? : (fuel : Nat) → List (String × Json) → Input →
    Option (List (String × Json) × Input)
  | 0, _, _ => none
  | fuel + 1, members, input =>
    match skipBlanks input with
    | '"' :: rest => do
      let (key, rest) ← readCharacters? (rest.length + 1) rest
      match skipBlanks rest with
      | ':' :: rest => do
        let (value, rest) ← readValue? fuel rest
        let members := insert members (String.ofList key) value
        match skipBlanks rest with
        | ',' :: rest => readMembers? fuel members rest
        | '\x7d' :: rest => pure (members, rest)
        | _ => none
      | _ => none
    | _ => none

end

def read? (s : String) : Option Json := do
  let input := s.toList
  let (value, rest) ← readValue? (input.length + 1) input
  if (skipBlanks rest).isEmpty then pure value else none

end Nonlinear.Json
