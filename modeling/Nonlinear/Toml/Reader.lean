import Nonlinear.Toml.Document
import Nonlinear.Toml.Token

/-! # Reading TOML

Version 1.0 of the format.  A byte order mark may stand first.  The fuel of the nested
readers bounds the number of their calls, and the length of the text is always enough.
-/

namespace Nonlinear.Toml

open Text

mutual

/-- A value, inside of which there is `room` for nested values. -/
def readValue? : (fuel room : Nat) → Input → Option (Value × Input)
  | 0, _, _ => none
  | fuel + 1, room, input =>
    match input with
    | '"' :: _ => (readString? input).map fun (s, rest) => (.text s, rest)
    | '\'' :: _ => (readString? input).map fun (s, rest) => (.text s, rest)
    | 't' :: 'r' :: 'u' :: 'e' :: rest => some (.boolean true, rest)
    | 'f' :: 'a' :: 'l' :: 's' :: 'e' :: rest => some (.boolean false, rest)
    | '[' :: rest =>
      match room with
      | 0 => none
      | room + 1 => (readItems? fuel room rest).map fun (items, rest) => (.array items, rest)
    | '\x7b' :: rest =>
      match room with
      | 0 => none
      | room + 1 =>
        match skipBlanks rest with
        | '\x7d' :: rest => some (.table [], rest)
        | rest => do
          let (definitions, rest) ← readDefinitions? fuel room rest
          pure (← Items.inline? definitions, rest)
    | _ => readNumeral? input

/-- The items of an array up to its closing bracket.  A comma may stand behind the last. -/
def readItems? : (fuel room : Nat) → Input → Option (List Value × Input)
  | 0, _, _ => none
  | fuel + 1, room, input =>
    match skipLines (input.length + 1) input with
    | ']' :: rest => some ([], rest)
    | rest => do
      let (item, rest) ← readValue? fuel room rest
      match skipLines (rest.length + 1) rest with
      | ',' :: rest => do
        let (items, rest) ← readItems? fuel room rest
        pure (item :: items, rest)
      | ']' :: rest => pure ([item], rest)
      | _ => none

/-- The definitions of an inline table up to its closing brace. -/
def readDefinitions? : (fuel room : Nat) → Input →
    Option (List ((List String × String) × Value) × Input)
  | 0, _, _ => none
  | fuel + 1, room, input => do
    let (key, rest) ← readKey? (depthLimit - 1) input
    match rest with
    | '=' :: rest => do
      let (v, rest) ← readValue? fuel room (skipBlanks rest)
      match skipBlanks rest with
      | ',' :: rest => do
        let (definitions, rest) ← readDefinitions? fuel room rest
        pure ((key, v) :: definitions, rest)
      | '\x7d' :: rest => pure ([(key, v)], rest)
      | _ => none
    | _ => none

end

/-- The key of a header, up to its closing bracket. -/
def readHeader? (input : Input) : Option ((List String × String) × Input) := do
  let (key, rest) ← readKey? (depthLimit - 1) input
  match rest with
  | ']' :: rest => pure (key, rest)
  | _ => none

/-- One line of a document, or what begins with it. -/
def readStatement? (d : Document) : Input → Option (Document × Input)
  | '[' :: '[' :: rest => do
    let ((path, key), rest) ← readHeader? rest
    match rest with
    | ']' :: rest => pure (← d.openElement path key, ← readLineEnd? rest)
    | _ => none
  | '[' :: rest => do
    let ((path, key), rest) ← readHeader? rest
    pure (← d.openTable path key, ← readLineEnd? rest)
  | input => do
    let ((path, key), rest) ← readKey? (depthLimit - 1) input
    match rest with
    | '=' :: rest => do
      let (v, rest) ← readValue? (rest.length + 1) (depthLimit - 1) (skipBlanks rest)
      pure (← d.define path key v, ← readLineEnd? rest)
    | _ => none

def readDocument? : (fuel : Nat) → Document → Input → Option Document
  | 0, _, _ => none
  | fuel + 1, d, input =>
    match skipBlanks input with
    | [] => some d
    | '#' :: rest => (readLineEnd? ('#' :: rest)).bind (readDocument? fuel d)
    | '\n' :: rest => readDocument? fuel d rest
    | '\r' :: rest => (readNewline? ('\r' :: rest)).bind (readDocument? fuel d)
    | rest => do
      let (d, rest) ← readStatement? d rest
      readDocument? fuel d rest

def read? (s : String) : Option Table := do
  let input := match s.toList with
    | '\ufeff' :: rest => rest
    | rest => rest
  let d ← readDocument? (input.length + 1) {} input
  pure (Item.toTable d.items)

end Nonlinear.Toml
