import Mathlib
import Nonlinear.Toml.Reader

/-! # Keys of a document

A definition that would give a key a second value is refused, so a table that was read has each
key once.  Its entries then say all about it: what a key leads to is its only entry, and the order
of the entries does not matter.
-/

namespace Nonlinear.Toml

/-- No key occurs twice. -/
def Distinct {β : Type} (entries : List (String × β)) : Prop := (entries.map Prod.fst).Nodup

namespace Distinct

variable {β : Type} {entries entries' : List (String × β)} {key : String} {b : β}

theorem nil : Distinct ([] : List (String × β)) := List.nodup_nil

theorem lookup_eq_some (distinct : Distinct entries) :
    entries.lookup key = some b ↔ (key, b) ∈ entries := by
  induction entries with
  | nil => simp
  | cons entry entries ih =>
      obtain ⟨fresh, rest⟩ := List.nodup_cons.mp distinct
      by_cases same : key = entry.1
      · subst same
        have elsewhere : (entry.1, b) ∉ entries := fun mem =>
          fresh (List.mem_map.mpr ⟨_, mem, rfl⟩)
        rw [List.lookup_cons_self, List.mem_cons, or_iff_left elsewhere, Option.some_inj]
        exact ⟨fun eq => eq ▸ rfl, fun eq => (congrArg Prod.snd eq).symm⟩
      · have passed : (key == entry.1) = false := beq_false_of_ne same
        have other : (key, b) ≠ entry := fun eq => same (congrArg Prod.fst eq)
        rw [List.lookup_cons, passed, List.mem_cons, or_iff_right other]
        exact ih rest

theorem lookup_eq_none (distinct : Distinct entries) :
    entries.lookup key = none ↔ ∀ b, (key, b) ∉ entries := by
  rw [Option.eq_none_iff_forall_ne_some]
  exact forall_congr' fun b => not_congr distinct.lookup_eq_some

/-- Two tables with the same entries for a key lead to the same value. -/
theorem lookup_congr (distinct : Distinct entries) (distinct' : Distinct entries')
    (same : ∀ b, (key, b) ∈ entries ↔ (key, b) ∈ entries') :
    entries.lookup key = entries'.lookup key :=
  Option.ext fun b => by rw [distinct.lookup_eq_some, distinct'.lookup_eq_some, same]

/-- A key that is there keeps its place, and another one comes last. -/
theorem put {items : Items} (distinct : Distinct items) (key : String) (item : Item) :
    Distinct (items.put key item) := by
  unfold Items.put
  split
  case isTrue =>
    have keys : (items.map fun entry => if entry.1 == key then (key, item) else entry).map Prod.fst
        = items.map Prod.fst := by
      rw [List.map_map]
      refine List.map_congr_left fun entry _ => ?_
      by_cases same : entry.1 = key
      · simp [same]
      · simp [same]
    unfold Distinct
    rw [keys]
    exact distinct
  case isFalse absent =>
    have fresh : key ∉ items.map Prod.fst := by simpa using absent
    unfold Distinct
    rw [List.map_append]
    exact List.nodup_append_comm.mp (List.nodup_cons.mpr ⟨fresh, distinct⟩)

end Distinct

theorem Item.keys_toTable (items : Items) : (toTable items).map Prod.fst = items.map Prod.fst := by
  induction items with
  | nil => rfl
  | cons entry items ih => simp only [toTable, List.map_cons, ih]

namespace Items

/-- A change after which the keys of a table are distinct if they were before. -/
def Change.KeepsDistinct (change : Change) : Prop :=
  ∀ {origin items items'}, change origin items = some items' → Distinct items → Distinct items'

variable {change : Change} {dotted : Bool} {path : List String} {key : String} {v : Value}

/-- Whatever happens further down the path is put back under the first key. -/
theorem Change.KeepsDistinct.changeAt (keeps : change.KeepsDistinct) :
    Change.KeepsDistinct (Items.changeAt dotted change path) := by
  intro origin items items' changed distinct
  cases path with
  | nil => exact keeps changed distinct
  | cons key path =>
      unfold Items.changeAt at changed
      split at changed
      · obtain ⟨_, -, ⟨⟩⟩ := Option.bind_eq_some_iff.mp changed
        exact distinct.put key _
      · cases changed
      · obtain ⟨_, -, ⟨⟩⟩ := Option.bind_eq_some_iff.mp changed
        exact distinct.put key _
      · split at changed
        · cases changed
        · obtain ⟨_, -, ⟨⟩⟩ := Option.bind_eq_some_iff.mp changed
          exact distinct.put key _

theorem keepsDistinct_define : (define path key v).KeepsDistinct := by
  refine Change.KeepsDistinct.changeAt ?_
  intro origin items items' changed distinct
  unfold defineHere at changed
  split at changed
  · cases changed
  · cases changed
    exact distinct.put key _

theorem keepsDistinct_openTable : (openTable path key).KeepsDistinct := by
  refine Change.KeepsDistinct.changeAt ?_
  intro origin items items' changed distinct
  dsimp only at changed
  split at changed
  · cases changed
    exact distinct.put key _
  · cases changed
    exact distinct.put key _
  · cases changed

theorem keepsDistinct_openElement : (openElement path key).KeepsDistinct := by
  refine Change.KeepsDistinct.changeAt ?_
  intro origin items items' changed distinct
  dsimp only at changed
  split at changed
  · cases changed
    exact distinct.put key _
  · cases changed
    exact distinct.put key _
  · cases changed

end Items

namespace Document

variable {d d' : Document} {path : List String} {key : String} {v : Value}

theorem distinct_define (defined : d.define path key v = some d') (distinct : Distinct d.items) :
    Distinct d'.items := by
  obtain ⟨_, changed, ⟨⟩⟩ := Option.bind_eq_some_iff.mp defined
  exact Items.keepsDistinct_define.changeAt changed distinct

theorem distinct_openTable (opened : d.openTable path key = some d') (distinct : Distinct d.items) :
    Distinct d'.items := by
  obtain ⟨_, changed, ⟨⟩⟩ := Option.bind_eq_some_iff.mp opened
  exact Items.keepsDistinct_openTable changed distinct

theorem distinct_openElement (opened : d.openElement path key = some d')
    (distinct : Distinct d.items) : Distinct d'.items := by
  obtain ⟨_, changed, ⟨⟩⟩ := Option.bind_eq_some_iff.mp opened
  exact Items.keepsDistinct_openElement changed distinct

end Document

section Reading

variable {d d' : Document} {input rest : Text.Input}

theorem distinct_readStatement? (read : readStatement? d input = some (d', rest))
    (distinct : Distinct d.items) : Distinct d'.items := by
  unfold readStatement? at read
  split at read
  -- The header of an element.
  · obtain ⟨⟨⟨path, key⟩, _⟩, -, read⟩ := Option.bind_eq_some_iff.mp read
    dsimp only at read
    split at read
    · obtain ⟨_, opened, read⟩ := Option.bind_eq_some_iff.mp read
      obtain ⟨_, -, ⟨⟩⟩ := Option.bind_eq_some_iff.mp read
      exact Document.distinct_openElement opened distinct
    · cases read
  -- The header of a table.
  · obtain ⟨⟨⟨path, key⟩, _⟩, -, read⟩ := Option.bind_eq_some_iff.mp read
    obtain ⟨_, opened, read⟩ := Option.bind_eq_some_iff.mp read
    obtain ⟨_, -, ⟨⟩⟩ := Option.bind_eq_some_iff.mp read
    exact Document.distinct_openTable opened distinct
  -- A definition.
  · obtain ⟨⟨⟨path, key⟩, _⟩, -, read⟩ := Option.bind_eq_some_iff.mp read
    dsimp only at read
    split at read
    · obtain ⟨_, -, read⟩ := Option.bind_eq_some_iff.mp read
      obtain ⟨_, defined, read⟩ := Option.bind_eq_some_iff.mp read
      obtain ⟨_, -, ⟨⟩⟩ := Option.bind_eq_some_iff.mp read
      exact Document.distinct_define defined distinct
    · cases read

theorem distinct_readDocument? {fuel : Nat} (read : readDocument? fuel d input = some d')
    (distinct : Distinct d.items) : Distinct d'.items := by
  induction fuel generalizing d input with
  | zero => cases read
  | succ fuel ih =>
      unfold readDocument? at read
      split at read
      · cases read
        exact distinct
      · obtain ⟨_, -, read⟩ := Option.bind_eq_some_iff.mp read
        exact ih read distinct
      · exact ih read distinct
      · obtain ⟨_, -, read⟩ := Option.bind_eq_some_iff.mp read
        exact ih read distinct
      · obtain ⟨_, statement, read⟩ := Option.bind_eq_some_iff.mp read
        exact ih read (distinct_readStatement? statement distinct)

theorem distinct_read? {s : String} {table : Table} (read : read? s = some table) :
    Distinct table := by
  obtain ⟨d, document, ⟨⟩⟩ := Option.bind_eq_some_iff.mp read
  unfold Distinct
  rw [Item.keys_toTable]
  exact distinct_readDocument? document .nil

end Reading

end Nonlinear.Toml
