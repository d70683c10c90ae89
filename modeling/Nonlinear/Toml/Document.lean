import Nonlinear.Toml.Basic

/-! # TOML documents under construction

A document is defined piece by piece: a header opens a table, and each key of a definition
leads through tables to the place of its value.  Tables on the way come into being on first
use.  Whether a table may still be extended depends on how it was opened, and this is what an
`Item` remembers.
-/

namespace Nonlinear.Toml

structure Origin where
  /-- It was passed through and not opened itself. -/
  implied : Bool
  /-- It was first passed through by a dotted key. -/
  dotted : Bool
  deriving DecidableEq, Repr

inductive Item where
  /-- A finished value, inline tables and arrays included. -/
  | value (v : Value)
  | table (origin : Origin) (items : List (String × Item))
  /-- An array of tables, of which only the last one is open. -/
  | tables (earlier : List (List (String × Item))) (last : List (String × Item))

namespace Item

mutual

def toValue : Item → Value
  | value v => v
  | table _ items => .table (toTable items)
  | tables earlier last => .array (toTables earlier ++ [.table (toTable last)])

def toTable : List (String × Item) → Table
  | [] => []
  | (key, item) :: items => (key, item.toValue) :: toTable items

def toTables : List (List (String × Item)) → List Value
  | [] => []
  | items :: rest => .table (toTable items) :: toTables rest

end

end Item

abbrev Items := List (String × Item)

namespace Items

def put (items : Items) (key : String) (item : Item) : Items :=
  if items.any (·.1 == key) then
    items.map fun entry => if entry.1 == key then (key, item) else entry
  else items ++ [(key, item)]

/-- A change of one table, which may be refused. -/
abbrev Change := Origin → Items → Option Items

/-- Change the table at the end of a path.  A dotted key does not lead into a table that was
opened by a header, and nothing leads into a value. -/
def changeAt (dotted : Bool) (change : Change) : List String → Change
  | [], origin, items => change origin items
  | key :: path, _, items =>
    match items.lookup key with
    | none => do
      let origin : Origin := ⟨true, dotted⟩
      let sub ← changeAt dotted change path origin []
      pure (items.put key (.table origin sub))
    | some (.value _) => none
    | some (.tables earlier last) => do
      let last ← changeAt dotted change path ⟨false, false⟩ last
      pure (items.put key (.tables earlier last))
    | some (.table origin sub) =>
      if dotted ∧ ¬ origin.implied then none
      else do
        let sub ← changeAt dotted change path origin sub
        pure (items.put key (.table origin sub))

/-- Define a key of a table itself.  A table that a header passed through takes no dotted
definitions. -/
def defineHere (viaDots : Bool) (key : String) (v : Value) : Change := fun origin items =>
  if origin.dotted ≠ viaDots ∨ (items.lookup key).isSome then none
  else some (items.put key (.value v))

def define (path : List String) (key : String) (v : Value) : Change :=
  changeAt true (defineHere (!path.isEmpty) key v) path

/-- Open a table.  It may exist already if headers have only passed through it. -/
def openTable (path : List String) (key : String) : Change :=
  changeAt false (fun _ items =>
    match items.lookup key with
    | none => some (items.put key (.table ⟨false, false⟩ []))
    | some (.table ⟨true, false⟩ sub) => some (items.put key (.table ⟨false, false⟩ sub))
    | some _ => none) path

def openElement (path : List String) (key : String) : Change :=
  changeAt false (fun _ items =>
    match items.lookup key with
    | none => some (items.put key (.tables [] []))
    | some (.tables earlier last) => some (items.put key (.tables (earlier ++ [last]) []))
    | some _ => none) path

def inline? (definitions : List ((List String × String) × Value)) : Option Value := do
  let items ← definitions.foldlM
    (fun (items : Items) ((path, key), v) => define path key v ⟨false, false⟩ items) []
  pure (.table (Item.toTable items))

end Items

/-- A document and the path of the table that definitions go to. -/
structure Document where
  items : Items := []
  current : List String := []

namespace Document

def define (d : Document) (path : List String) (key : String) (v : Value) : Option Document := do
  let items ← Items.changeAt false (Items.define path key v) d.current ⟨false, false⟩ d.items
  pure { d with items }

def openTable (d : Document) (path : List String) (key : String) : Option Document := do
  pure ⟨← Items.openTable path key ⟨false, false⟩ d.items, path ++ [key]⟩

def openElement (d : Document) (path : List String) (key : String) : Option Document := do
  pure ⟨← Items.openElement path key ⟨false, false⟩ d.items, path ++ [key]⟩

end Document

end Nonlinear.Toml
