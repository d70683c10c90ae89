import Nonlinear.Text.Numeral
import Nonlinear.Toml.Basic

/-! # TOML tokens

Keys, strings, numbers and dates, and what stands between them.
-/

namespace Nonlinear.Toml

open Text

def skipBlanks : Input → Input := List.dropWhile fun c => c = ' ' ∨ c = '\t'

/-- Characters of a line: all but control characters. -/
def isPrintable (c : Char) : Bool := c = '\t' ∨ (' ' ≤ c ∧ c ≠ '\x7f')

def readNewline? : Input → Option Input
  | '\n' :: rest => some rest
  | '\r' :: '\n' :: rest => some rest
  | _ => none

def skipComment : Input → Input
  | '#' :: rest => rest.dropWhile isPrintable
  | rest => rest

/-- The rest of a line that holds nothing more. -/
def readLineEnd? (input : Input) : Option Input :=
  match skipComment (skipBlanks input) with
  | [] => some []
  | rest => readNewline? rest

/-- Blanks, comments and ends of lines, up to `fuel` lines. -/
def skipLines : (fuel : Nat) → Input → Input
  | 0, input => input
  | fuel + 1, input =>
    let rest := skipComment (skipBlanks input)
    match readNewline? rest with
    | some rest => skipLines fuel rest
    | none => rest

/-- Blanks and ends of lines, up to `fuel` lines. -/
def skipEmptyLines : (fuel : Nat) → Input → Input
  | 0, input => input
  | fuel + 1, input =>
    let rest := skipBlanks input
    match readNewline? rest with
    | some rest => skipEmptyLines fuel rest
    | none => rest

/-! ## Strings -/

def charOf? (code : Nat) : Option Char :=
  if code.isValidChar then some (Char.ofNat code) else none

def readEscape? : Input → Option (Char × Input)
  | 'b' :: rest => some ('\x08', rest)
  | 't' :: rest => some ('\t', rest)
  | 'n' :: rest => some ('\n', rest)
  | 'f' :: rest => some ('\x0c', rest)
  | 'r' :: rest => some ('\r', rest)
  | '"' :: rest => some ('"', rest)
  | '\\' :: rest => some ('\\', rest)
  | 'u' :: rest => do
    let (code, rest) ← readHex? 4 rest
    pure (← charOf? code, rest)
  | 'U' :: rest => do
    let (code, rest) ← readHex? 8 rest
    pure (← charOf? code, rest)
  | _ => none

def cons (c : Char) : List Char × Input → List Char × Input
  | (cs, rest) => (c :: cs, rest)

/-- A string in double quotes, up to its closing quote. -/
def readBasic? : (fuel : Nat) → Input → Option (List Char × Input)
  | 0, _ => none
  | _, [] => none
  | _, '"' :: rest => some ([], rest)
  | fuel + 1, '\\' :: rest => do
    let (c, rest) ← readEscape? rest
    return cons c (← readBasic? fuel rest)
  | fuel + 1, c :: rest =>
    if isPrintable c then (readBasic? fuel rest).map (cons c) else none

/-- A string in single quotes, up to its closing quote. -/
def readLiteral? : Input → Option (List Char × Input)
  | [] => none
  | '\'' :: rest => some ([], rest)
  | c :: rest => if isPrintable c then (readLiteral? rest).map (cons c) else none

/-- A run of quotes inside or at the end of a string over several lines.  Three of them end
the string, and up to two more may stand before those. -/
def readQuotes (quote : Char) (input : Input) : Nat × Input :=
  ((input.takeWhile (· = quote)).length, input.dropWhile (· = quote))

/-- A string over several lines, up to its closing quotes.  With `escapes` a backslash
introduces an escape, and at the end of a line it joins lines. -/
def readLong? (quote : Char) (escapes : Bool) : (fuel : Nat) → Input →
    Option (List Char × Input)
  | 0, _ => none
  | _, [] => none
  | fuel + 1, c :: rest =>
    if c = quote then
      let (n, rest) := readQuotes quote (c :: rest)
      if n < 3 then
        (readLong? quote escapes fuel rest).map fun (cs, rest) =>
          (List.replicate n quote ++ cs, rest)
      else if n < 6 then some (List.replicate (n - 3) quote, rest)
      else none
    else if c = '\\' ∧ escapes then
      match readNewline? (skipBlanks rest) with
      | some rest => readLong? quote escapes fuel (skipEmptyLines (rest.length + 1) rest)
      | none => do
        let (c, rest) ← readEscape? rest
        return cons c (← readLong? quote escapes fuel rest)
    else
      match readNewline? (c :: rest) with
      | some rest => (readLong? quote escapes fuel rest).map (cons '\n')
      | none =>
        if isPrintable c then (readLong? quote escapes fuel rest).map (cons c) else none

/-- A newline directly behind the opening quotes does not count. -/
def dropNewline (input : Input) : Input := (readNewline? input).getD input

def readString? : Input → Option (String × Input)
  | '"' :: '"' :: '"' :: rest =>
    (readLong? '"' true (rest.length + 1) (dropNewline rest)).map fun (cs, rest) =>
      (String.ofList cs, rest)
  | '\'' :: '\'' :: '\'' :: rest =>
    (readLong? '\'' false (rest.length + 1) (dropNewline rest)).map fun (cs, rest) =>
      (String.ofList cs, rest)
  | '"' :: rest =>
    (readBasic? (rest.length + 1) rest).map fun (cs, rest) => (String.ofList cs, rest)
  | '\'' :: rest => (readLiteral? rest).map fun (cs, rest) => (String.ofList cs, rest)
  | _ => none

/-! ## Keys -/

def isBareKeyChar (c : Char) : Bool := c.isAlphanum ∨ c = '_' ∨ c = '-'

def readSimpleKey? : Input → Option (String × Input)
  | '"' :: rest =>
    (readBasic? (rest.length + 1) rest).map fun (cs, rest) => (String.ofList cs, rest)
  | '\'' :: rest => (readLiteral? rest).map fun (cs, rest) => (String.ofList cs, rest)
  | rest =>
    match rest.takeWhile isBareKeyChar with
    | [] => none
    | cs => some (String.ofList cs, rest.dropWhile isBareKeyChar)

/-- A key of at most `fuel` parts with dots between them, as the path to its last part.
Blanks may surround every part. -/
def readKey? : (fuel : Nat) → Input → Option ((List String × String) × Input)
  | 0, _ => none
  | fuel + 1, input => do
    let (part, rest) ← readSimpleKey? (skipBlanks input)
    match skipBlanks rest with
    | '.' :: rest => do
      let ((path, key), rest) ← readKey? fuel rest
      pure ((part :: path, key), rest)
    | rest => pure (([], part), rest)

/-- Nothing is nested to this depth: neither the parts of a key, nor values. -/
def depthLimit : Nat := 80

/-! ## Numbers and dates -/

/-- Digits behind a first one, with single underscores between them. -/
def readMoreDigits? (isDigit : Char → Bool) : Input → Option (List Char × Input)
  | [] => some ([], [])
  | '_' :: c :: rest =>
    if isDigit c then (readMoreDigits? isDigit rest).map (cons c) else none
  | '_' :: [] => none
  | c :: rest =>
    if isDigit c then (readMoreDigits? isDigit rest).map (cons c) else some ([], c :: rest)

def readDigits? (isDigit : Char → Bool) : Input → Option (List Char × Input)
  | [] => none
  | c :: rest =>
    if isDigit c then (readMoreDigits? isDigit rest).map (cons c) else none

/-- Decimal digits of which the first is zero only if it is the only one. -/
def readDecimal? : Input → Option (List Char × Input)
  | '0' :: rest => some (['0'], rest)
  | rest => readDigits? Char.isDigit rest

def readSign : Input → Bool × Input
  | '-' :: rest => (true, rest)
  | '+' :: rest => (false, rest)
  | rest => (false, rest)

def integer? (n : Int) : Option Value :=
  if -9223372036854775808 ≤ n ∧ n < 9223372036854775808 then some (.integer n) else none

/-- A real; one that is too large is refused. -/
def real? (negative : Bool) (digits fraction : List Char) (exponent : Int) : Option Value :=
  let x := nearestDouble negative (digitsValue 10 (digits ++ fraction))
    (exponent - fraction.length)
  if x == 1.0 / 0.0 then none else some (.real x)

def readExponent? : Input → Option (Int × Input)
  | c :: rest =>
    if c = 'e' ∨ c = 'E' then do
      let (negative, rest) := readSign rest
      let (digits, rest) ← readDigits? Char.isDigit rest
      let n : Int := digitsValue 10 digits
      pure (if negative then -n else n, rest)
    else some (0, c :: rest)
  | [] => some (0, [])

/-- An integer in a base that its first characters name. -/
def readBased? (base : Nat) (isDigit : Char → Bool) (input : Input) :
    Option (Value × Input) := do
  let (digits, rest) ← readDigits? isDigit input
  pure (← integer? (digitsValue base digits), rest)

def readNumber? : Input → Option (Value × Input)
  | '0' :: 'x' :: rest => readBased? 16 isHexDigit rest
  | '0' :: 'o' :: rest => readBased? 8 (fun c => '0' ≤ c ∧ c ≤ '7') rest
  | '0' :: 'b' :: rest => readBased? 2 (fun c => c = '0' ∨ c = '1') rest
  | input => do
    let (negative, rest) := readSign input
    match rest with
    | 'i' :: 'n' :: 'f' :: rest =>
      pure (.real (if negative then -(1.0 / 0.0) else 1.0 / 0.0), rest)
    | 'n' :: 'a' :: 'n' :: rest => pure (.real (0.0 / 0.0), rest)
    | _ =>
      let (digits, rest) ← readDecimal? rest
      match rest with
      | '.' :: rest => do
        let (fraction, rest) ← readDigits? Char.isDigit rest
        let (exponent, rest) ← readExponent? rest
        pure (← real? negative digits fraction exponent, rest)
      | c :: _ =>
        if c = 'e' ∨ c = 'E' then do
          let (exponent, rest) ← readExponent? rest
          pure (← real? negative digits [] exponent, rest)
        else
          let n : Int := digitsValue 10 digits
          pure (← integer? (if negative then -n else n), rest)
      | [] =>
        let n : Int := digitsValue 10 digits
        pure (← integer? (if negative then -n else n), rest)

/-- Two digits with a value between two bounds. -/
def readTwo? (low high : Nat) : Input → Option (Nat × Input)
  | a :: b :: rest =>
    if a.isDigit ∧ b.isDigit then
      let n := digitsValue 10 [a, b]
      if low ≤ n ∧ n ≤ high then some (n, rest) else none
    else none
  | _ => none

def readColon? : Input → Option Input
  | ':' :: rest => some rest
  | _ => none

def readDash? : Input → Option Input
  | '-' :: rest => some rest
  | _ => none

def readTime? (input : Input) : Option Input := do
  let (_, rest) ← readTwo? 0 23 input
  let (_, rest) ← readTwo? 0 59 (← readColon? rest)
  let (_, rest) ← readTwo? 0 60 (← readColon? rest)
  match rest with
  | '.' :: rest =>
    if (rest.takeWhile Char.isDigit).isEmpty then none
    else pure (rest.dropWhile Char.isDigit)
  | rest => pure rest

/-- An offset from universal time, if there is one. -/
def readOffset? : Input → Option Input
  | 'Z' :: rest => some rest
  | 'z' :: rest => some rest
  | c :: rest =>
    if c = '+' ∨ c = '-' then do
      let (_, rest) ← readTwo? 0 23 rest
      let (_, rest) ← readTwo? 0 59 (← readColon? rest)
      pure rest
    else some (c :: rest)
  | [] => some []

def daysIn (year month : Nat) : Nat :=
  if month = 2 then
    if year % 4 = 0 ∧ (year % 100 ≠ 0 ∨ year % 400 = 0) then 29 else 28
  else if month = 4 ∨ month = 6 ∨ month = 9 ∨ month = 11 then 30
  else 31

/-- Whether the text begins like a time: an hour and a colon. -/
def startsTime (input : Input) : Bool :=
  ((readTwo? 0 23 input).bind fun (_, rest) => readColon? rest).isSome

/-- Whether the text begins like a date: a year and a dash. -/
def startsDate (input : Input) : Bool :=
  (input.take 4).length = 4 ∧ (input.take 4).all Char.isDigit ∧ input[4]? = some '-'

/-- A date, with a time behind a blank or a `T` if there is one. -/
def readDate? (input : Input) : Option Input := do
  let year := digitsValue 10 (input.take 4)
  let (month, rest) ← readTwo? 1 12 (input.drop 5)
  let (_, rest) ← readTwo? 1 (daysIn year month) (← readDash? rest)
  match rest with
  | c :: time =>
    if (c = 'T' ∨ c = 't' ∨ c = ' ') ∧ startsTime time then
      readOffset? (← readTime? time)
    else pure rest
  | [] => pure []

def readNumeral? (input : Input) : Option (Value × Input) :=
  if startsDate input then (readDate? input).map (.datetime, ·)
  else if startsTime input then (readTime? input).map (.datetime, ·)
  else readNumber? input

end Nonlinear.Toml
