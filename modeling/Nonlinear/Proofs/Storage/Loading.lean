import Nonlinear.Proofs.Config
import Nonlinear.Proofs.FloatingPoint.Order
import Nonlinear.Proofs.Storage.Spelling
import Nonlinear.Proofs.Toml.Keys

/-! # Loading a configuration

A configuration text says what differs from the standard configuration.  What a known key may be
given is a matter of its kind, and what the configuration may hold is a list of ranges, of which
the first that is missed is reported.  Nothing else about the text is of consequence.
-/

namespace Nonlinear

open FieldSource FloatingPoint Scalar

section Kinds

variable {α : Type} [FloatingPoint α]

/-- An integer is a number too. -/
inductive IsNumber : Toml.Value → α → Prop
  | integer (n : Int) : IsNumber (.integer n) (ofInt n)
  | real (x : Float) : IsNumber (.real x) (narrow x)

inductive IsSize : Toml.Value → Nat → Prop
  | integer (n : Nat) : IsSize (.integer n) n

inductive IsFlag : Toml.Value → Bool → Prop
  | boolean (b : Bool) : IsFlag (.boolean b) b

/-- The name of a norm may also stand as the only key of a table, with nothing behind it. -/
inductive IsNorm : Toml.Value → ResidualNorm → Prop
  | text (kind : ResidualNorm) : IsNorm (.text kind.name) kind
  | table (kind : ResidualNorm) : IsNorm (.table [(kind.name, .table [])]) kind
  | array (kind : ResidualNorm) : IsNorm (.table [(kind.name, .array [])]) kind

inductive FieldKind where
  | number
  | size
  | flag
  | norm

/-- What a field of this kind may be given. -/
def FieldKind.Admits : FieldKind → Toml.Value → Prop
  | number, v => ∃ x : Float, IsNumber v x
  | size, v => ∃ n, IsSize v n
  | flag, v => ∃ b, IsFlag v b
  | norm, v => ∃ kind, IsNorm v kind

/-- A reader takes the values of a kind, as what they mean, and no others. -/
structure Reads {β : Type} (read : Toml.Value → Option β) (kind : FieldKind)
    (Means : Toml.Value → β → Prop) : Prop where
  eq_some {v : Toml.Value} {x : β} : read v = some x ↔ Means v x
  admits {v : Toml.Value} : kind.Admits v ↔ ∃ x, Means v x

theorem Reads.eq_none {β : Type} {read : Toml.Value → Option β} {kind : FieldKind}
    {Means : Toml.Value → β → Prop} (reads : Reads read kind Means) {v : Toml.Value} :
    read v = none ↔ ¬ kind.Admits v := by
  rw [Option.eq_none_iff_forall_ne_some, reads.admits, not_exists]
  exact forall_congr' fun x => not_congr reads.eq_some

theorem reads_number : Reads (number? : Toml.Value → Option α) .number IsNumber where
  eq_some {v x} := by
    constructor
    · intro read
      cases v with
      | integer n =>
          cases read
          exact .integer n
      | real r =>
          cases read
          exact .real r
      | text | boolean | datetime | array | table => cases read
    · rintro (n | r)
      · rfl
      · rfl
  admits {v} := by
    constructor
    · rintro ⟨_, n | r⟩
      · exact ⟨_, .integer n⟩
      · exact ⟨_, .real r⟩
    · rintro ⟨_, n | r⟩
      · exact ⟨_, .integer n⟩
      · exact ⟨_, .real r⟩

theorem reads_size : Reads size? .size IsSize where
  eq_some {v n} := by
    constructor
    · intro read
      cases v with
      | integer i =>
          obtain ⟨nonneg, eq⟩ := Option.ite_none_right_eq_some.mp read
          obtain rfl : i.toNat = n := Option.some_inj.mp eq
          obtain ⟨n, rfl⟩ := Int.eq_ofNat_of_zero_le nonneg
          exact .integer n
      | text | real | boolean | datetime | array | table => cases read
    · rintro ⟨n⟩
      exact if_pos (Int.natCast_nonneg n)
  admits := Iff.rfl

theorem reads_flag : Reads flag? .flag IsFlag where
  eq_some {v b} := by
    constructor
    · intro read
      cases v with
      | boolean b =>
          cases read
          exact .boolean b
      | text | integer | real | datetime | array | table => cases read
    · rintro ⟨b⟩
      rfl
  admits := Iff.rfl

theorem reads_norm : Reads norm? .norm IsNorm where
  eq_some {v kind} := by
    constructor
    · intro read
      unfold norm? instFieldSourceValue at read
      dsimp only at read
      split at read
      · obtain rfl := ResidualNorm.ofName?_eq_some.mp read
        exact .text kind
      · obtain rfl := ResidualNorm.ofName?_eq_some.mp read
        exact .table kind
      · obtain rfl := ResidualNorm.ofName?_eq_some.mp read
        exact .array kind
      · cases read
    · rintro (_ | _ | _)
      · exact ResidualNorm.ofName?_eq_some.mpr rfl
      · exact ResidualNorm.ofName?_eq_some.mpr rfl
      · exact ResidualNorm.ofName?_eq_some.mpr rfl
  admits := Iff.rfl

end Kinds

section Fields

/-- What a field is: what its key is given, and the default without the key. -/
inductive FieldOf {β : Type} (table : Toml.Table) (name : String) (Means : Toml.Value → β → Prop)
    (default : β) : β → Prop
  | given {v : Toml.Value} {x : β} (mem : (name, v) ∈ table) (means : Means v x) :
      FieldOf table name Means default x
  | missing (none : ∀ v, (name, v) ∉ table) : FieldOf table name Means default default

variable {β : Type} {table : Toml.Table} {name : String} {read : Toml.Value → Option β}
  {kind : FieldKind} {Means : Toml.Value → β → Prop} {default x : β}

theorem getD_eq_some (reads : Reads read kind Means) (distinct : Toml.Distinct table) :
    Fields.getD (fun name => table.lookup name) name read default = some x ↔
      FieldOf table name Means default x := by
  simp only [Fields.getD]
  constructor
  · intro found
    split at found
    case h_1 none =>
      cases found
      exact .missing (distinct.lookup_eq_none.mp none)
    case h_2 v some =>
      exact .given (distinct.lookup_eq_some.mp some) (reads.eq_some.mp found)
  · rintro (⟨mem, means⟩ | none)
    · rw [distinct.lookup_eq_some.mpr mem]
      exact reads.eq_some.mpr means
    · rw [distinct.lookup_eq_none.mpr none]

theorem getD_eq_none (reads : Reads read kind Means) (distinct : Toml.Distinct table) :
    Fields.getD (fun name => table.lookup name) name read default = none ↔
      ∃ v, (name, v) ∈ table ∧ ¬ kind.Admits v := by
  simp only [Fields.getD]
  constructor
  · intro failed
    split at failed
    · cases failed
    case h_2 v some =>
      exact ⟨v, distinct.lookup_eq_some.mp some, reads.eq_none.mp failed⟩
  · rintro ⟨v, mem, wrong⟩
    rw [distinct.lookup_eq_some.mpr mem]
    exact reads.eq_none.mpr wrong

/-- A record cannot be read if one of its fields cannot. -/
theorem bind_eq_none_or {γ : Type} {o : Option β} {next : β → Option γ} {p q : Prop}
    (first : o = none ↔ p) (rest : ∀ x, next x = none ↔ q) : o.bind next = none ↔ p ∨ q := by
  cases o with
  | none =>
      have holds : p := first.mp rfl
      simp [holds]
  | some x =>
      have fails : ¬ p := fun holds => nomatch first.mpr holds
      rw [Option.bind_some, rest x, or_iff_right fails]

end Fields

section Ranges

/-- The first of the ranges that is missed. -/
def FirstMissed (ranges : List (ConfigFault × Prop)) (fault : ConfigFault) : Prop :=
  ∃ before range after,
    ranges = before ++ (fault, range) :: after ∧ (∀ r ∈ before, r.2) ∧ ¬ range

/-- Judgement of ranges in their order. -/
inductive Judges (ranges : List (ConfigFault × Prop)) : Except ConfigFault Unit → Prop
  | all (met : ∀ r ∈ ranges, r.2) : Judges ranges (.ok ())
  | first {fault : ConfigFault} (missed : FirstMissed ranges fault) : Judges ranges (.error fault)

theorem Judges.nil : Judges [] (.ok ()) := .all (List.forall_mem_nil _)

theorem Judges.check {fault : ConfigFault} {p q : Prop} [Decidable p]
    {ranges : List (ConfigFault × Prop)} {rest : Except ConfigFault Unit} (test : p ↔ ¬ q)
    (judges : Judges ranges rest) :
    Judges ((fault, q) :: ranges) (if p then .error fault else rest) := by
  by_cases fails : p
  · rw [if_pos fails]
    exact .first ⟨[], q, ranges, rfl, List.forall_mem_nil _, test.mp fails⟩
  · have met : q := not_not.mp (test.not.mp fails)
    rw [if_neg fails]
    cases judges with
    | all others => exact .all (List.forall_mem_cons.mpr ⟨met, others⟩)
    | first missed =>
        obtain ⟨before, range, after, rfl, others, miss⟩ := missed
        exact .first
          ⟨(fault, q) :: before, range, after, rfl, List.forall_mem_cons.mpr ⟨met, others⟩, miss⟩

end Ranges

/-- What there is to say about a kind of configuration. -/
structure ConfigFormat (α C : Type) where
  known : List (String × FieldKind)
  /-- The fields are what their keys are given, and otherwise those of the standard. -/
  Completes : Toml.Table → C → Prop
  /-- What is checked, in its order. -/
  ranges : C → List (ConfigFault × Prop)
  /-- The numbers that are checked. -/
  numbers : C → List α

/-- Loading by fields, after which the ranges are checked. -/
structure ConfigFormat.Loads {α C : Type} [Scalar α] (format : ConfigFormat α C)
    (ofToml : String → Except ConfigError C) (ofTable : Toml.Table → Except ConfigError C) :
    Prop where
  malformed {s : String} (malformed : Toml.read? s = none) : ofToml s = .error .unreadable
  text {s : String} {table : Toml.Table} (read : Toml.read? s = some table) :
    Toml.Distinct table ∧ ofToml s = ofTable table
  wrong_kind {table : Toml.Table} (distinct : Toml.Distinct table) {name : String}
    {kind : FieldKind} {v : Toml.Value} (known : (name, kind) ∈ format.known)
    (given : (name, v) ∈ table) (wrong : ¬ kind.Admits v) : ofTable table = .error .unreadable
  completed {table : Toml.Table} (distinct : Toml.Distinct table)
    (fits : ∀ name kind v, (name, kind) ∈ format.known → (name, v) ∈ table → kind.Admits v) :
    ∃! c, format.Completes table c
  judged {table : Toml.Table} (distinct : Toml.Distinct table) {c : C}
    (completes : format.Completes table c) :
    ((∀ r ∈ format.ranges c, r.2) ∧ ofTable table = .ok c) ∨
      ∃ fault, FirstMissed (format.ranges c) fault ∧ ofTable table = .error (.invalid fault)
  /-- The order of the keys does not matter, and neither do unknown keys. -/
  alike {table table' : Toml.Table} (distinct : Toml.Distinct table)
    (distinct' : Toml.Distinct table')
    (same : ∀ name kind, (name, kind) ∈ format.known →
      ∀ v, (name, v) ∈ table ↔ (name, v) ∈ table') : ofTable table = ofTable table'
  not_nan {table : Toml.Table} {c : C} (loaded : ofTable table = .ok c) :
    ∀ x ∈ format.numbers c, isNaN x = false

section Load

variable {α C : Type} [Scalar α] {format : ConfigFormat α C}
  {ofFields : Fields Toml.Value → Option C} {validate : C → Except ConfigFault Unit}
  {ofToml : String → Except ConfigError C} {ofTable : Toml.Table → Except ConfigError C}

/-- Reading of the fields, then a check. -/
def loadChecked (ofFields : Fields Toml.Value → Option C) (validate : C → Except ConfigFault Unit)
    (table : Toml.Table) : Except ConfigError C :=
  match ofFields fun name => table.lookup name with
  | none => .error .unreadable
  | some c =>
    match validate c with
    | .error fault => .error (.invalid fault)
    | .ok () => .ok c

theorem ConfigFormat.loads
    (text : ∀ s, ofToml s = match Toml.read? s with
      | none => .error .unreadable
      | some table => ofTable table)
    (load : ∀ table, ofTable table = loadChecked ofFields validate table)
    (eq_some : ∀ {table c}, Toml.Distinct table →
      (ofFields (fun name => table.lookup name) = some c ↔ format.Completes table c))
    (eq_none : ∀ {table}, Toml.Distinct table →
      (ofFields (fun name => table.lookup name) = none ↔
        ∃ field ∈ format.known, ∃ v, (field.1, v) ∈ table ∧ ¬ field.2.Admits v))
    (only : ∀ {fields fields' : Fields Toml.Value},
      (∀ name ∈ format.known.map Prod.fst, fields name = fields' name) →
        ofFields fields = ofFields fields')
    (judges : ∀ c, Judges (format.ranges c) (validate c))
    (not_nan : ∀ {c}, (∀ r ∈ format.ranges c, r.2) → ∀ x ∈ format.numbers c, isNaN x = false) :
    format.Loads ofToml ofTable where
  malformed {s} malformed := by rw [text, malformed]
  text {s table} read := by
    rw [text, read]
    exact ⟨Toml.distinct_read? read, rfl⟩
  wrong_kind {table} distinct {name kind v} known given wrong := by
    rw [load, loadChecked, (eq_none distinct).mpr ⟨_, known, v, given, wrong⟩]
  completed {table} distinct fits := by
    cases found : ofFields (fun name => table.lookup name) with
    | none =>
        obtain ⟨_, known, v, given, wrong⟩ := (eq_none distinct).mp found
        exact absurd (fits _ _ v known given) wrong
    | some c =>
        refine ⟨c, (eq_some distinct).mp found, fun c' completes => ?_⟩
        exact Option.some_inj.mp (((eq_some distinct).mpr completes).symm.trans found)
  judged {table} distinct {c} completes := by
    rw [load, loadChecked, (eq_some distinct).mpr completes]
    dsimp only
    have judged := judges c
    generalize validate c = outcome at judged
    cases judged with
    | all met => exact .inl ⟨met, rfl⟩
    | first missed => exact .inr ⟨_, missed, rfl⟩
  alike {table table'} distinct distinct' same := by
    have fields : ofFields (fun name => table.lookup name) =
        ofFields (fun name => table'.lookup name) := by
      refine only fun name mem => ?_
      obtain ⟨⟨_, kind⟩, known, rfl⟩ := List.mem_map.mp mem
      exact distinct.lookup_congr distinct' (same _ kind known)
    rw [load, load, loadChecked, loadChecked, fields]
  not_nan {table c} loaded := by
    rw [load, loadChecked] at loaded
    split at loaded
    · cases loaded
    case h_2 c' _ =>
      have judged := judges c'
      split at loaded
      · cases loaded
      case h_2 accepted =>
        cases loaded
        rw [accepted] at judged
        cases judged with
        | all met => exact not_nan met

end Load

section Formats

variable {α : Type} [FloatingPoint α] {table : Toml.Table}

structure SearchConfig.Completes (table : Toml.Table) (c : SearchConfig α) : Prop where
  tolerance : FieldOf table "tolerance" IsNumber (standard : SearchConfig α).tolerance c.tolerance
  functionTolerance : FieldOf table "function_tolerance" IsNumber
    (standard : SearchConfig α).functionTolerance c.functionTolerance
  maxIterations : FieldOf table "max_iterations" IsSize
    (standard : SearchConfig α).maxIterations c.maxIterations
  bisectionOnly : FieldOf table "bisection_only" IsFlag
    (standard : SearchConfig α).bisectionOnly c.bisectionOnly

structure NewtonConfig.Completes (table : Toml.Table) (c : NewtonConfig α) : Prop where
  tolerance : FieldOf table "tolerance" IsNumber (standard : NewtonConfig α).tolerance c.tolerance
  maxIterations : FieldOf table "max_iterations" IsSize
    (standard : NewtonConfig α).maxIterations c.maxIterations
  lineSearch : FieldOf table "line_search" IsFlag
    (standard : NewtonConfig α).lineSearch c.lineSearch
  maxBacktracks : FieldOf table "max_backtracks" IsSize
    (standard : NewtonConfig α).maxBacktracks c.maxBacktracks
  sufficientDecrease : FieldOf table "sufficient_decrease" IsNumber
    (standard : NewtonConfig α).sufficientDecrease c.sufficientDecrease
  minDamping : FieldOf table "min_damping" IsNumber
    (standard : NewtonConfig α).minDamping c.minDamping
  norm : FieldOf table "norm" IsNorm (standard : NewtonConfig α).norm c.norm
  divergenceWindow : FieldOf table "divergence_window" IsSize
    (standard : NewtonConfig α).divergenceWindow c.divergenceWindow
  divergenceThreshold : FieldOf table "divergence_threshold" IsNumber
    (standard : NewtonConfig α).divergenceThreshold c.divergenceThreshold

def SearchConfig.format (α : Type) [FloatingPoint α] : ConfigFormat α (SearchConfig α) where
  known :=
    [("tolerance", .number), ("function_tolerance", .number), ("max_iterations", .size),
      ("bisection_only", .flag)]
  Completes := Completes
  ranges c :=
    [(.tolerance, 0.0 < c.tolerance ∧ isFinite c.tolerance = true),
      (.functionTolerance, 0.0 ≤ c.functionTolerance ∧ isFinite c.functionTolerance = true),
      (.maxIterations, 0 < c.maxIterations)]
  numbers c := [c.tolerance, c.functionTolerance]

def NewtonConfig.format (α : Type) [FloatingPoint α] : ConfigFormat α (NewtonConfig α) where
  known :=
    [("tolerance", .number), ("max_iterations", .size), ("line_search", .flag),
      ("max_backtracks", .size), ("sufficient_decrease", .number), ("min_damping", .number),
      ("norm", .norm), ("divergence_window", .size), ("divergence_threshold", .number)]
  Completes := Completes
  ranges c :=
    [(.tolerance, 0.0 < c.tolerance ∧ isFinite c.tolerance = true),
      (.maxIterations, 0 < c.maxIterations),
      (.sufficientDecrease, 0.0 ≤ c.sufficientDecrease ∧ c.sufficientDecrease < 1.0),
      (.minDamping, 0.0 < c.minDamping ∧ c.minDamping ≤ 1.0),
      (.divergenceWindow, 0 < c.divergenceWindow),
      (.divergenceThreshold, c.tolerance < c.divergenceThreshold)]
  numbers c := [c.tolerance, c.sufficientDecrease, c.minDamping, c.divergenceThreshold]

theorem SearchConfig.ofFields_eq_some (distinct : Toml.Distinct table) {c : SearchConfig α} :
    ofFields (fun name => table.lookup name) = some c ↔ Completes table c := by
  simp only [ofFields, Option.bind_eq_bind, Option.bind_eq_some_iff, Option.pure_def,
    Option.some_inj, getD_eq_some reads_number distinct, getD_eq_some reads_size distinct,
    getD_eq_some reads_flag distinct]
  constructor
  · rintro ⟨_, tolerance, _, functionTolerance, _, maxIterations, _, bisectionOnly, rfl⟩
    exact ⟨tolerance, functionTolerance, maxIterations, bisectionOnly⟩
  · rintro ⟨tolerance, functionTolerance, maxIterations, bisectionOnly⟩
    exact ⟨_, tolerance, _, functionTolerance, _, maxIterations, _, bisectionOnly, rfl⟩

theorem NewtonConfig.ofFields_eq_some (distinct : Toml.Distinct table) {c : NewtonConfig α} :
    ofFields (fun name => table.lookup name) = some c ↔ Completes table c := by
  simp only [ofFields, Option.bind_eq_bind, Option.bind_eq_some_iff, Option.pure_def,
    Option.some_inj, getD_eq_some reads_number distinct, getD_eq_some reads_size distinct,
    getD_eq_some reads_flag distinct, getD_eq_some reads_norm distinct]
  constructor
  · rintro ⟨_, tolerance, _, maxIterations, _, lineSearch, _, maxBacktracks, _, sufficientDecrease,
      _, minDamping, _, norm, _, divergenceWindow, _, divergenceThreshold, rfl⟩
    exact ⟨tolerance, maxIterations, lineSearch, maxBacktracks, sufficientDecrease, minDamping,
      norm, divergenceWindow, divergenceThreshold⟩
  · rintro ⟨tolerance, maxIterations, lineSearch, maxBacktracks, sufficientDecrease, minDamping,
      norm, divergenceWindow, divergenceThreshold⟩
    exact ⟨_, tolerance, _, maxIterations, _, lineSearch, _, maxBacktracks, _, sufficientDecrease,
      _, minDamping, _, norm, _, divergenceWindow, _, divergenceThreshold, rfl⟩

theorem SearchConfig.ofFields_eq_none (distinct : Toml.Distinct table) :
    (ofFields (fun name => table.lookup name) : Option (SearchConfig α)) = none ↔
      ∃ field ∈ (format α).known, ∃ v, (field.1, v) ∈ table ∧ ¬ field.2.Admits v := by
  simp only [format, List.exists_mem_cons_iff]
  refine bind_eq_none_or (getD_eq_none reads_number distinct) fun _ => ?_
  refine bind_eq_none_or (getD_eq_none reads_number distinct) fun _ => ?_
  refine bind_eq_none_or (getD_eq_none reads_size distinct) fun _ => ?_
  refine bind_eq_none_or (getD_eq_none reads_flag distinct) fun _ => ?_
  exact iff_of_false nofun nofun

theorem NewtonConfig.ofFields_eq_none (distinct : Toml.Distinct table) :
    (ofFields (fun name => table.lookup name) : Option (NewtonConfig α)) = none ↔
      ∃ field ∈ (format α).known, ∃ v, (field.1, v) ∈ table ∧ ¬ field.2.Admits v := by
  simp only [format, List.exists_mem_cons_iff]
  refine bind_eq_none_or (getD_eq_none reads_number distinct) fun _ => ?_
  refine bind_eq_none_or (getD_eq_none reads_size distinct) fun _ => ?_
  refine bind_eq_none_or (getD_eq_none reads_flag distinct) fun _ => ?_
  refine bind_eq_none_or (getD_eq_none reads_size distinct) fun _ => ?_
  refine bind_eq_none_or (getD_eq_none reads_number distinct) fun _ => ?_
  refine bind_eq_none_or (getD_eq_none reads_number distinct) fun _ => ?_
  refine bind_eq_none_or (getD_eq_none reads_norm distinct) fun _ => ?_
  refine bind_eq_none_or (getD_eq_none reads_size distinct) fun _ => ?_
  refine bind_eq_none_or (getD_eq_none reads_number distinct) fun _ => ?_
  exact iff_of_false nofun nofun

theorem SearchConfig.judges_validate (c : SearchConfig α) :
    Judges ((format α).ranges c) c.validate :=
  .check (by rw [not_and_or]) <|
  .check (by rw [not_and_or]) <|
  .check Nat.pos_iff_ne_zero.not_left.symm .nil

theorem NewtonConfig.judges_validate (c : NewtonConfig α) :
    Judges ((format α).ranges c) c.validate :=
  .check (by rw [not_and_or]) <|
  .check Nat.pos_iff_ne_zero.not_left.symm <|
  .check Iff.rfl <|
  .check Iff.rfl <|
  .check Nat.pos_iff_ne_zero.not_left.symm <|
  .check Iff.rfl .nil

theorem SearchConfig.ofTable_eq (table : Toml.Table) :
    (ofTable table : Except ConfigError (SearchConfig α)) =
      loadChecked ofFields validate table := by
  unfold ofTable loadChecked
  dsimp only
  cases (ofFields fun name => table.lookup name : Option (SearchConfig α)) with
  | none => rfl
  | some c => cases c.validate <;> rfl

theorem NewtonConfig.ofTable_eq (table : Toml.Table) :
    (ofTable table : Except ConfigError (NewtonConfig α)) =
      loadChecked ofFields validate table := by
  unfold ofTable loadChecked
  dsimp only
  cases (ofFields fun name => table.lookup name : Option (NewtonConfig α)) with
  | none => rfl
  | some c => cases c.validate <;> rfl

theorem SearchConfig.loads [LawfulScalar α] :
    (SearchConfig.format α).Loads ofToml ofTable := by
  refine ConfigFormat.loads (fun _ => rfl) ofTable_eq (fun distinct => ofFields_eq_some distinct)
    (fun distinct => ofFields_eq_none distinct) ?_ judges_validate ?_
  · intro fields fields' same
    simp only [format, List.map_cons, List.map_nil, List.forall_mem_cons] at same
    obtain ⟨tolerance, functionTolerance, maxIterations, bisectionOnly, -⟩ := same
    simp only [ofFields, Fields.getD, tolerance, functionTolerance, maxIterations, bisectionOnly]
  · intro c met
    simp only [format, List.forall_mem_cons] at met ⊢
    obtain ⟨⟨tolerance, -⟩, ⟨functionTolerance, -⟩, -⟩ := met
    exact ⟨(LawfulScalar.isNaN_of_le (le_of_lt tolerance)).2,
      (LawfulScalar.isNaN_of_le functionTolerance).2, List.forall_mem_nil _⟩

theorem NewtonConfig.loads [LawfulScalar α] :
    (NewtonConfig.format α).Loads ofToml ofTable := by
  refine ConfigFormat.loads (fun _ => rfl) ofTable_eq (fun distinct => ofFields_eq_some distinct)
    (fun distinct => ofFields_eq_none distinct) ?_ judges_validate ?_
  · intro fields fields' same
    simp only [format, List.map_cons, List.map_nil, List.forall_mem_cons] at same
    obtain ⟨tolerance, maxIterations, lineSearch, maxBacktracks, sufficientDecrease, minDamping,
      norm, divergenceWindow, divergenceThreshold, -⟩ := same
    simp only [ofFields, Fields.getD, tolerance, maxIterations, lineSearch, maxBacktracks,
      sufficientDecrease, minDamping, norm, divergenceWindow, divergenceThreshold]
  · intro c met
    simp only [format, List.forall_mem_cons] at met ⊢
    obtain ⟨⟨tolerance, -⟩, -, ⟨sufficientDecrease, -⟩, ⟨minDamping, -⟩, -, divergenceThreshold,
      -⟩ := met
    exact ⟨(LawfulScalar.isNaN_of_le (le_of_lt tolerance)).2,
      (LawfulScalar.isNaN_of_le sufficientDecrease).2,
      (LawfulScalar.isNaN_of_le (le_of_lt minDamping)).2,
      (LawfulScalar.isNaN_of_le (le_of_lt divergenceThreshold)).2, List.forall_mem_nil _⟩

end Formats

/-- A text is loaded as the standard configuration with the known keys in their place, if they are
given what their kinds admit, and is then accepted unless a range is missed. -/
theorem configurations_load :
    (SearchConfig.format Float).Loads SearchConfig.ofToml SearchConfig.ofTable ∧
    (SearchConfig.format Float32).Loads SearchConfig.ofToml SearchConfig.ofTable ∧
    (NewtonConfig.format Float).Loads NewtonConfig.ofToml NewtonConfig.ofTable :=
  ⟨SearchConfig.loads, SearchConfig.loads, NewtonConfig.loads⟩

/-- A threshold below the standard tolerance, next to a table that is not looked into, and a norm
without a name. -/
theorem configurations_load_threshold :
    let text := "divergence_threshold = 0\n[extra]\nnorm = 3"
    let table : Toml.Table :=
      [("divergence_threshold", .integer 0), ("extra", .table [("norm", .integer 3)])]
    let alone : Toml.Table := [("divergence_threshold", .integer 0)]
    let nameless : Toml.Table := [("norm", .integer 3)]
    (NewtonConfig.ofToml text : Except ConfigError (NewtonConfig Float)) =
        NewtonConfig.ofTable table ∧
      (NewtonConfig.ofTable table : Except ConfigError (NewtonConfig Float)) =
        NewtonConfig.ofTable alone ∧
      (NewtonConfig.ofTable alone : Except ConfigError (NewtonConfig Float)) =
        .error (.invalid .divergenceThreshold) ∧
      (NewtonConfig.ofTable nameless : Except ConfigError (NewtonConfig Float)) =
        .error .unreadable := by
  intro text table alone nameless
  obtain ⟨-, -, newton⟩ := configurations_load
  have read : Toml.read? text = some table := by cbv
  obtain ⟨distinct, loaded⟩ := newton.text read
  have distinct' : Toml.Distinct alone := List.nodup_singleton _
  have distinct'' : Toml.Distinct nameless := List.nodup_singleton _
  have unknown : ∀ kind, ("extra", kind) ∉ (NewtonConfig.format Float).known := by
    simp [NewtonConfig.format]
  refine ⟨loaded, newton.alike distinct distinct' ?_, by decide +kernel, ?_⟩
  · intro name kind known v
    have other : (name, v) ≠ ("extra", .table [("norm", .integer 3)]) := by
      rintro ⟨⟩
      exact unknown kind known
    simp [table, alone, other]
  · have known : ("norm", FieldKind.norm) ∈ (NewtonConfig.format Float).known := by
      simp [NewtonConfig.format]
    refine newton.wrong_kind distinct'' known (List.mem_singleton_self _) ?_
    rintro ⟨_, ⟨⟩⟩

end Nonlinear
