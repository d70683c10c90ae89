import Nonlinear.Proofs.Storage.Spelling

/-! # Stored data comes back

All data that callers keep is read back as it was written, if its numbers are finite.  It may have
been spelled in other ways before; then it is written again in the one form that all spellings of
the value share.
-/

namespace Nonlinear

/-- What is written again after a JSON value was read. -/
def rewritten? (β : Type) [Stored β] (j : Json) : Option Json := (decode? j : Option β).map encode

/-- Data that is stored without loss, and in one form. -/
structure RoundTrips (β : Type) [Stored β] [HoldsNumbers β] : Prop where
  /-- What was written is read back, unless a number in it is not finite. -/
  read_written {v w : β} : decode? (encode v) = some w ↔ AllFinite v ∧ v = w
  /-- The spellings of a value are the JSON values that are written again as the value is. -/
  rewritten {v : β} (finite : AllFinite v) {j : Json} :
    decode? j = some v ↔ rewritten? β j = some (encode v)

theorem roundTrips (β : Type) [Stored β] [HoldsNumbers β] [LawfulStored β] : RoundTrips β where
  read_written := decode?_encode
  rewritten {v} finite {j} := by
    constructor
    · intro read
      exact congrArg (Option.map encode) read
    -- What is written as `v` is, is read as `v`, so no other value is written in this form.
    · intro same
      obtain ⟨w, read, written⟩ := Option.map_eq_some_iff.mp same
      have back : decode? (encode w) = some v := by
        rw [written]
        exact decode?_encode.mpr ⟨finite, rfl⟩
      obtain ⟨-, rfl⟩ := decode?_encode.mp back
      exact read

/-- The forms that a report is read from. -/
structure StoredReport : Prop where
  kind {j : Json} {r : Report} (read : decode? j = some r) : ∃ body, j = .object [(r.kind, body)]
  /-- The order of the keys does not matter, and neither do unknown keys. -/
  object {kind : String} {ms ms' : Members}
    (same : ∀ name ∈ Report.fieldNames kind, ms.lookup name = ms'.lookup name) :
    (decode? (.object [(kind, .object ms)]) : Option Report) =
      decode? (.object [(kind, .object ms')])
  required {kind name : String} {ms : Members} (mem : name ∈ Report.fieldNames kind)
    (missing : ms.lookup name = none) :
    (decode? (.object [(kind, .object ms)]) : Option Report) = none
  evaluationFailure {j : Json} {error : EvaluationError} :
    decode? j = some (Report.evaluationFailure error) ↔
      ∃ body, j = .object [("EvaluationFailure", body)] ∧ decode? body = some error
  invalidInput {j : Json} {text : String} :
    decode? j = some (Report.invalidInput text) ↔ j = .object [("InvalidInput", .text text)]

/-- Errors, reports, counts, solutions, norms and configurations are stored without loss.  Each is
read from all the forms that are its own, and all the forms of a value are written again as one. -/
theorem stored_data_roundTrips :
    (RoundTrips EvaluationError ∧ StoredRecord EvaluationError ["message"]) ∧
    (RoundTrips Report ∧ StoredReport) ∧
    (RoundTrips Counters ∧
      StoredRecord Counters ["iterations", "function_evaluations", "jacobian_evaluations"]) ∧
    (RoundTrips (Solution Float) ∧ StoredRecord (Solution Float) ["x", "value", "stats"]) ∧
    (RoundTrips (Solution Float32) ∧ StoredRecord (Solution Float32) ["x", "value", "stats"]) ∧
    (RoundTrips (Solution (List Float)) ∧
      StoredRecord (Solution (List Float)) ["x", "value", "stats"]) ∧
    (RoundTrips ResidualNorm ∧ ∀ (j : Json) (kind : ResidualNorm),
      decode? j = some kind ↔ j = .text kind.name ∨ j = .object [(kind.name, .null)]) ∧
    (RoundTrips (SearchConfig Float) ∧
      StoredSettings (SearchConfig Float) SearchConfig.fieldNames .standard) ∧
    (RoundTrips (SearchConfig Float32) ∧
      StoredSettings (SearchConfig Float32) SearchConfig.fieldNames .standard) ∧
    RoundTrips (NewtonConfig Float) ∧
      StoredSettings (NewtonConfig Float) NewtonConfig.fieldNames .standard := by
  have reports : StoredReport :=
    { kind := Report.kind_of_read
      object := Report.decode?_congr
      required := Report.decode?_eq_none
      evaluationFailure := Report.decode?_evaluationFailure
      invalidInput := Report.decode?_invalidInput }
  have search : AllFinite (SearchConfig.standard : SearchConfig Float) :=
    ⟨by decide +kernel, by decide +kernel⟩
  have search32 : AllFinite (SearchConfig.standard : SearchConfig Float32) :=
    ⟨by decide +kernel, by decide +kernel⟩
  have newton : AllFinite (NewtonConfig.standard : NewtonConfig Float) :=
    ⟨by decide +kernel, by decide +kernel, by decide +kernel, by decide +kernel⟩
  exact ⟨⟨roundTrips _, record_evaluationError⟩, ⟨roundTrips _, reports⟩,
    ⟨roundTrips _, record_counters⟩, ⟨roundTrips _, record_solution⟩,
    ⟨roundTrips _, record_solution⟩, ⟨roundTrips _, record_solution⟩,
    ⟨roundTrips _, fun _ _ => ResidualNorm.decode?_eq_some⟩,
    ⟨roundTrips _, settings_searchConfig search⟩, ⟨roundTrips _, settings_searchConfig search32⟩,
    roundTrips _, settings_newtonConfig newton⟩

/-- A single with a negative zero, and a configuration in an unusual spelling. -/
theorem stored_data_roundTrips_unusual :
    let s : Solution Float32 := ⟨0.1, -0.0, ⟨3, 5, 0⟩⟩
    let config : NewtonConfig Float :=
      { NewtonConfig.standard with norm := .rms, maxIterations := 7 }
    let j : Json := .object
      [("norm", .object [("rms", .null)]), ("comment", .text "slow"), ("max_iterations", .whole 7)]
    (AllFinite s ∧ decode? (encode s) = some s) ∧
      (AllFinite config ∧ decode? j = some config) ∧
      rewritten? (NewtonConfig Float) j = some (encode config) ∧
      decode? (encode config) = some config := by
  intro s config j
  have finite : AllFinite s :=
    ⟨show Scalar.isFinite s.x = true by decide +kernel,
      show Scalar.isFinite s.value = true by decide +kernel⟩
  have finite' : AllFinite config :=
    ⟨by decide +kernel, by decide +kernel, by decide +kernel, by decide +kernel⟩
  have read : decode? j = some config := rfl
  obtain ⟨-, -, -, -, ⟨solutions, -⟩, -, -, -, -, configs, -⟩ := stored_data_roundTrips
  exact ⟨⟨finite, solutions.read_written.mpr ⟨finite, rfl⟩⟩, ⟨finite', read⟩,
    (configs.rewritten finite').mp read, configs.read_written.mpr ⟨finite', rfl⟩⟩

end Nonlinear
