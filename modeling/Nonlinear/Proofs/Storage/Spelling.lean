import Nonlinear.Proofs.Storage.Written

/-! # Spellings of stored data

A record may be stored as an object, with its keys in any order and with unknown ones among them,
or as an array of its fields.  A field may be left out only where there is a default for it.  A
report is stored under its kind, and a norm by its name.
-/

namespace Nonlinear

open FieldSource FloatingPoint

/-- The members of an object. -/
abbrev Members := List (String × Json)

/-- A record is read by the names of its fields, or else by their order. -/
structure ReadByField (β : Type) [Stored β] (names : List String) : Prop where
  /-- The order of the keys does not matter, and neither do unknown keys. -/
  object {ms ms' : Members} (same : ∀ name ∈ names, ms.lookup name = ms'.lookup name) :
    (decode? (.object ms) : Option β) = decode? (.object ms')
  array (items : List Json) :
    (decode? (.array items) : Option β) =
      if items.length ≤ names.length then decode? (.object (names.zip items)) else none
  form {j : Json} {v : β} (read : decode? j = some v) :
    (∃ ms, j = .object ms) ∨ ∃ items, j = .array items

/-- No field may be left out. -/
structure StoredRecord (β : Type) [Stored β] (names : List String) : Prop extends
    ReadByField β names where
  required {ms : Members} {name : String} (mem : name ∈ names) (missing : ms.lookup name = none) :
    (decode? (.object ms) : Option β) = none

/-- A field that is left out is the one of the standard value. -/
structure StoredSettings (β : Type) [Stored β] (names : List String) (standard : β) : Prop extends
    ReadByField β names where
  completed : ∃ defaults, encode standard = .object defaults ∧
    ∀ ms : Members, (decode? (.object ms) : Option β) = decode? (.object (ms ++ defaults))

section Fields

variable {β : Type} [Stored β] {names : List String} {ofFields : Fields Json → Option β}

theorem ReadByField.of_fields (decode : ∀ j, decode? j = (j.fields? names).bind ofFields)
    (only : ∀ {fields fields' : Fields Json}, (∀ name ∈ names, fields name = fields' name) →
      ofFields fields = ofFields fields') : ReadByField β names where
  object same := by
    rw [decode, decode]
    exact only same
  array items := by
    simp only [decode, Json.fields?]
    split
    · rfl
    · rfl
  form {j v} read := by
    rw [decode] at read
    cases j with
    | object ms => exact .inl ⟨ms, rfl⟩
    | array items => exact .inr ⟨items, rfl⟩
    | null | bool | whole | real | text => cases read

/-- A default can as well be read from what it is written as. -/
theorem bind_getD_append {γ δ : Type} {ms defaults : Members} {name : String}
    {read : Json → Option γ} {default : γ} {next next' : γ → Option δ}
    (written : (defaults.lookup name).bind read = some default)
    (same : ∀ v, next v = next' v) :
    (Fields.getD (fun name => ms.lookup name) name read default).bind next =
      (Fields.getD (fun name => (ms ++ defaults).lookup name) name read default).bind next' := by
  obtain ⟨j, found, read_default⟩ := Option.bind_eq_some_iff.mp written
  obtain rfl : next = next' := funext same
  simp only [Fields.getD, List.lookup_append]
  cases ms.lookup name with
  | none => simp only [Option.none_or, found, read_default]
  | some v => rfl

end Fields

theorem record_evaluationError : StoredRecord EvaluationError ["message"] where
  toReadByField := by
    refine .of_fields (fun _ => rfl) ?_
    intro fields fields' same
    simp only [List.forall_mem_cons] at same
    obtain ⟨message, -⟩ := same
    simp only [Fields.get, message]
  required {ms name} mem missing := by
    show ((ms.lookup "message").bind decode?).bind _ = none
    obtain rfl := List.mem_singleton.mp mem
    rw [missing, Option.bind_none, Option.bind_none]

theorem record_counters :
    StoredRecord Counters ["iterations", "function_evaluations", "jacobian_evaluations"] where
  toReadByField := by
    refine .of_fields (fun _ => rfl) ?_
    intro fields fields' same
    simp only [List.forall_mem_cons] at same
    obtain ⟨iterations, functions, jacobians, -⟩ := same
    simp only [Fields.get, iterations, functions, jacobians]
  required {ms name} mem missing := by
    show ((ms.lookup "iterations").bind size?).bind (fun _ =>
      ((ms.lookup "function_evaluations").bind size?).bind fun _ =>
      ((ms.lookup "jacobian_evaluations").bind size?).bind fun _ => _) = none
    simp only [List.mem_cons, List.not_mem_nil, or_false] at mem
    rcases mem with rfl | rfl | rfl <;> simp [missing]

theorem record_solution {χ : Type} [Stored χ] :
    StoredRecord (Solution χ) ["x", "value", "stats"] where
  toReadByField := by
    refine .of_fields (fun _ => rfl) ?_
    intro fields fields' same
    simp only [List.forall_mem_cons] at same
    obtain ⟨x, value, stats, -⟩ := same
    simp only [Fields.get, x, value, stats]
  required {ms name} mem missing := by
    show ((ms.lookup "x").bind decode?).bind (fun _ =>
      ((ms.lookup "value").bind decode?).bind fun _ =>
      ((ms.lookup "stats").bind decode?).bind fun _ => _) = none
    simp only [List.mem_cons, List.not_mem_nil, or_false] at mem
    rcases mem with rfl | rfl | rfl <;> simp [missing]

section Settings

variable {α : Type} [FloatingPoint α] [Widens α]

theorem settings_searchConfig (finite : AllFinite (SearchConfig.standard : SearchConfig α)) :
    StoredSettings (SearchConfig α) SearchConfig.fieldNames .standard where
  toReadByField := by
    refine .of_fields (fun _ => rfl) ?_
    intro fields fields' same
    simp only [SearchConfig.fieldNames, List.forall_mem_cons] at same
    obtain ⟨tolerance, functionTolerance, maxIterations, bisectionOnly, -⟩ := same
    simp only [SearchConfig.ofFields, Fields.getD, tolerance, functionTolerance, maxIterations,
      bisectionOnly]
  completed := by
    obtain ⟨tolerance, functionTolerance⟩ := finite
    refine ⟨_, rfl, fun ms => ?_⟩
    show SearchConfig.ofFields _ = SearchConfig.ofFields _
    refine bind_getD_append (number?_of_isFinite tolerance) fun _ => ?_
    refine bind_getD_append (number?_of_isFinite functionTolerance) fun _ => ?_
    refine bind_getD_append (size?_encodeSize _) fun _ => ?_
    exact bind_getD_append (flag?_bool _) fun _ => rfl

theorem settings_newtonConfig (finite : AllFinite (NewtonConfig.standard : NewtonConfig α)) :
    StoredSettings (NewtonConfig α) NewtonConfig.fieldNames .standard where
  toReadByField := by
    refine .of_fields (fun _ => rfl) ?_
    intro fields fields' same
    simp only [NewtonConfig.fieldNames, List.forall_mem_cons] at same
    obtain ⟨tolerance, maxIterations, lineSearch, maxBacktracks, sufficientDecrease, minDamping,
      norm, divergenceWindow, divergenceThreshold, -⟩ := same
    simp only [NewtonConfig.ofFields, Fields.getD, tolerance, maxIterations, lineSearch,
      maxBacktracks, sufficientDecrease, minDamping, norm, divergenceWindow, divergenceThreshold]
  completed := by
    obtain ⟨tolerance, sufficientDecrease, minDamping, divergenceThreshold⟩ := finite
    refine ⟨_, rfl, fun ms => ?_⟩
    show NewtonConfig.ofFields _ = NewtonConfig.ofFields _
    refine bind_getD_append (number?_of_isFinite tolerance) fun _ => ?_
    refine bind_getD_append (size?_encodeSize _) fun _ => ?_
    refine bind_getD_append (flag?_bool _) fun _ => ?_
    refine bind_getD_append (size?_encodeSize _) fun _ => ?_
    refine bind_getD_append (number?_of_isFinite sufficientDecrease) fun _ => ?_
    refine bind_getD_append (number?_of_isFinite minDamping) fun _ => ?_
    refine bind_getD_append (norm?_encode _) fun _ => ?_
    refine bind_getD_append (size?_encodeSize _) fun _ => ?_
    exact bind_getD_append (number?_of_isFinite divergenceThreshold) fun _ => rfl

end Settings

/-- The kind that a report is stored under. -/
def Report.kind : Report → String
  | invalidBracket .. => "InvalidBracket"
  | maxIterationsExceeded _ => "MaxIterationsExceeded"
  | singularJacobian _ => "SingularJacobian"
  | divergence .. => "Divergence"
  | evaluationFailure _ => "EvaluationFailure"
  | dimensionMismatch .. => "DimensionMismatch"
  | invalidInput _ => "InvalidInput"

/-- The fields of the reports of a kind. -/
def Report.fieldNames : String → List String
  | "InvalidBracket" => ["a", "b", "fa", "fb"]
  | "MaxIterationsExceeded" => ["iterations"]
  | "SingularJacobian" => ["iteration"]
  | "Divergence" => ["iteration", "residual_norm"]
  | "EvaluationFailure" => ["message"]
  | "DimensionMismatch" => ["expected", "got"]
  | _ => []

namespace Report

theorem kind_of_read {j : Json} {r : Report} (read : decode? j = some r) :
    ∃ body, j = .object [(r.kind, body)] := by
  -- An error and a text are read by readers of their own, all other kinds from the members.
  unfold decode? at read
  dsimp only [instStoredReport] at read
  split at read
  · rename_i body
    obtain ⟨error, -, rfl⟩ := Option.map_eq_some_iff.mp read
    exact ⟨body, rfl⟩
  · rename_i body
    obtain ⟨text, -, rfl⟩ := Option.map_eq_some_iff.mp read
    exact ⟨body, rfl⟩
  · rename_i members _ _
    refine ⟨.object members, ?_⟩
    split at read
    case h_6 => cases read
    all_goals simp only [Option.bind_eq_bind, Option.bind_eq_some_iff, Option.pure_def] at read
    all_goals grind [kind]
  · cases read

/-- A kind without fields is not stored as an object. -/
theorem decode?_of_fieldNames_nil {kind : String} (none : fieldNames kind = []) (ms : Members) :
    (decode? (.object [(kind, .object ms)]) : Option Report) = .none := by
  cases read : (decode? (.object [(kind, .object ms)]) : Option Report) with
  | none => rfl
  | some r =>
      obtain ⟨body, same⟩ := kind_of_read read
      obtain ⟨rfl, -⟩ : kind = r.kind ∧ Json.object ms = body := by simpa using same
      cases r with
      | invalidInput text => cases read
      | _ => cases none

theorem decode?_congr {kind : String} {ms ms' : Members}
    (same : ∀ name ∈ fieldNames kind, ms.lookup name = ms'.lookup name) :
    (decode? (.object [(kind, .object ms)]) : Option Report) =
      decode? (.object [(kind, .object ms')]) := by
  cases names : fieldNames kind with
  | nil => rw [decode?_of_fieldNames_nil names, decode?_of_fieldNames_nil names]
  | cons =>
      unfold fieldNames at same names
      split at same
      case h_7 => exact absurd names (by simp)
      all_goals
        simp only [List.forall_mem_cons] at same
        simp [decode?, Json.fields?, Fields.get, same]

theorem decode?_eq_none {kind name : String} {ms : Members} (mem : name ∈ fieldNames kind)
    (missing : ms.lookup name = none) :
    (decode? (.object [(kind, .object ms)]) : Option Report) = none := by
  unfold fieldNames at mem
  split at mem
  case h_7 => cases mem
  all_goals simp only [List.mem_cons, List.not_mem_nil, or_false] at mem
  case h_1 => rcases mem with rfl | rfl | rfl | rfl <;> simp [decode?, Fields.get, missing]
  case h_4 | h_6 => rcases mem with rfl | rfl <;> simp [decode?, Fields.get, missing]
  case h_2 | h_3 | h_5 =>
    subst mem
    simp [decode?, Json.fields?, Fields.get, missing]

theorem decode?_evaluationFailure {j : Json} {error : EvaluationError} :
    decode? j = some (evaluationFailure error) ↔
      ∃ body, j = .object [("EvaluationFailure", body)] ∧ decode? body = some error := by
  constructor
  · intro read
    obtain ⟨body, rfl⟩ := kind_of_read read
    obtain ⟨error', read', same⟩ := Option.map_eq_some_iff.mp read
    obtain rfl := evaluationFailure.inj same
    exact ⟨body, rfl, read'⟩
  · rintro ⟨body, rfl, read⟩
    exact Option.map_eq_some_iff.mpr ⟨error, read, rfl⟩

theorem decode?_invalidInput {j : Json} {text : String} :
    decode? j = some (invalidInput text) ↔ j = .object [("InvalidInput", .text text)] := by
  constructor
  · intro read
    obtain ⟨body, rfl⟩ := kind_of_read read
    obtain ⟨text', read', same⟩ := Option.map_eq_some_iff.mp read
    obtain rfl := invalidInput.inj same
    cases body with
    | text => cases read'; rfl
    | null | bool | whole | real | array | object => cases read'
  · rintro rfl
    rfl

end Report

namespace ResidualNorm

theorem ofName?_eq_some {s : String} {kind : ResidualNorm} :
    ofName? s = some kind ↔ s = kind.name := by
  constructor
  · intro found
    unfold ofName? at found
    have same := List.find?_some found
    exact (beq_iff_eq.mp same).symm
  · rintro rfl
    cases kind <;> rfl

theorem decode?_eq_some {j : Json} {kind : ResidualNorm} :
    decode? j = some kind ↔ j = .text kind.name ∨ j = .object [(kind.name, .null)] := by
  constructor
  · intro read
    unfold decode? at read
    dsimp only [instStoredResidualNorm] at read
    unfold norm? at read
    dsimp only [instFieldSourceJson] at read
    split at read
    · exact .inl (congrArg Json.text (ofName?_eq_some.mp read))
    · rw [ofName?_eq_some.mp read]
      exact .inr rfl
    · cases read
  · rintro (rfl | rfl)
    · exact ofName?_eq_some.mpr rfl
    · exact ofName?_eq_some.mpr rfl

end ResidualNorm

end Nonlinear
