import Nonlinear.Proofs.FloatingPoint.Widening
import Nonlinear.Storage.Record

/-! # Reading what was written

A count, a flag, a text and a norm are read back as they were written.  A number is read back if it
is finite, and otherwise it is written as `null`, which no number is read from.  So a record is
read back if all numbers in it are finite, and otherwise not at all.
-/

namespace Nonlinear

open FieldSource FloatingPoint

/-- Data with numbers in it. -/
class HoldsNumbers (β : Type) where
  /-- All of these numbers are finite. -/
  AllFinite : β → Prop

export HoldsNumbers (AllFinite)

instance : HoldsNumbers Float := ⟨fun x => Scalar.isFinite x = true⟩

instance : HoldsNumbers Float32 := ⟨fun x => Scalar.isFinite x = true⟩

instance {χ : Type} [HoldsNumbers χ] : HoldsNumbers (List χ) := ⟨fun xs => ∀ x ∈ xs, AllFinite x⟩

instance : HoldsNumbers EvaluationError := ⟨fun _ => True⟩

instance : HoldsNumbers Counters := ⟨fun _ => True⟩

instance : HoldsNumbers ResidualNorm := ⟨fun _ => True⟩

instance {χ : Type} [HoldsNumbers χ] : HoldsNumbers (Solution χ) :=
  ⟨fun s => AllFinite s.x ∧ AllFinite s.value⟩

instance : HoldsNumbers Report where
  AllFinite
    | .invalidBracket a b fa fb => AllFinite a ∧ AllFinite b ∧ AllFinite fa ∧ AllFinite fb
    | .divergence _ residualNorm => AllFinite residualNorm
    | .maxIterationsExceeded _ | .singularJacobian _ | .evaluationFailure _
    | .dimensionMismatch _ _ | .invalidInput _ => True

instance {α : Type} [FloatingPoint α] : HoldsNumbers (SearchConfig α) :=
  ⟨fun c => Scalar.isFinite c.tolerance = true ∧ Scalar.isFinite c.functionTolerance = true⟩

instance {α : Type} [FloatingPoint α] : HoldsNumbers (NewtonConfig α) :=
  ⟨fun c => Scalar.isFinite c.tolerance = true ∧ Scalar.isFinite c.sufficientDecrease = true ∧
    Scalar.isFinite c.minDamping = true ∧ Scalar.isFinite c.divergenceThreshold = true⟩

section Fields

variable {α : Type} [FloatingPoint α]

theorem number?_encodeNumber [Widens α] {x y : α} :
    number? (encodeNumber x) = some y ↔ Scalar.isFinite x = true ∧ x = y := by
  unfold encodeNumber
  split
  · rename_i finite
    show some (narrow (widen x)) = some y ↔ _
    rw [narrow_widen x finite, Option.some_inj]
    exact (and_iff_right finite).symm
  · rename_i infinite
    exact iff_of_false (nomatch ·) fun h => infinite h.1

theorem number?_of_isFinite [Widens α] {x : α} (finite : Scalar.isFinite x = true) :
    number? (encodeNumber x) = some x :=
  number?_encodeNumber.mpr ⟨finite, rfl⟩

@[simp]
theorem size?_encodeSize (n : Nat) : size? (encodeSize n) = some n :=
  if_pos (Int.natCast_nonneg n)

@[simp]
theorem flag?_bool (b : Bool) : flag? (Json.bool b) = some b := rfl

@[simp]
theorem norm?_encode (kind : ResidualNorm) : norm? (encode kind) = some kind := by
  cases kind <;> rfl

end Fields

/-- What was written is read back, unless a number in it is not finite. -/
class LawfulStored (β : Type) [Stored β] [HoldsNumbers β] : Prop where
  decode?_encode {v w : β} : decode? (encode v) = some w ↔ AllFinite v ∧ v = w

export LawfulStored (decode?_encode)

section Records

variable {α χ γ : Type}

theorem bind_of_read {β : Type} {o : Option β} {p : Prop} {v : β}
    (read : ∀ {w}, o = some w ↔ p ∧ v = w) {next : β → Option γ} {r : γ} :
    o.bind next = some r ↔ p ∧ next v = some r := by
  rw [Option.bind_eq_some_iff]
  constructor
  · rintro ⟨w, returned, ok⟩
    obtain ⟨finite, rfl⟩ := read.mp returned
    exact ⟨finite, ok⟩
  · rintro ⟨finite, ok⟩
    exact ⟨v, read.mpr ⟨finite, rfl⟩, ok⟩

theorem bind_decode?_encode [Stored χ] [HoldsNumbers χ] [LawfulStored χ] {v : χ}
    {next : χ → Option γ} {r : γ} :
    (decode? (encode v)).bind next = some r ↔ AllFinite v ∧ next v = some r :=
  bind_of_read decode?_encode

theorem bind_number?_encodeNumber [FloatingPoint α] [Widens α] {x : α} {next : α → Option γ}
    {r : γ} :
    (number? (encodeNumber x)).bind next = some r ↔ Scalar.isFinite x = true ∧ next x = some r :=
  bind_of_read number?_encodeNumber

instance : LawfulStored Float := ⟨number?_encodeNumber⟩

instance : LawfulStored Float32 := ⟨number?_encodeNumber⟩

instance [Stored χ] [HoldsNumbers χ] [LawfulStored χ] : LawfulStored (List χ) where
  decode?_encode {xs ys} := by
    show (xs.map encode).mapM decode? = some ys ↔ (∀ x ∈ xs, AllFinite x) ∧ xs = ys
    induction xs generalizing ys with
    | nil => simp
    | cons x xs ih =>
        simp only [List.map_cons, List.mapM_cons, Option.bind_eq_bind, bind_decode?_encode,
          bind_of_read ih, List.forall_mem_cons, and_assoc]
        exact and_congr_right fun _ => and_congr_right fun _ => Option.some_inj

instance : LawfulStored EvaluationError where
  decode?_encode := Option.some_inj.trans (and_iff_right trivial).symm

instance : LawfulStored ResidualNorm where
  decode?_encode {kind kind'} := by
    show norm? (encode kind) = some kind' ↔ True ∧ kind = kind'
    rw [norm?_encode, Option.some_inj, true_and]

instance : LawfulStored Counters where
  decode?_encode {c d} := by
    show ((size? (encodeSize c.iterations)).bind fun iterations =>
      (size? (encodeSize c.functionEvaluations)).bind fun functions =>
      (size? (encodeSize c.jacobianEvaluations)).bind fun jacobians =>
        some (Counters.mk iterations functions jacobians)) = some d ↔ True ∧ c = d
    simp only [size?_encodeSize, Option.bind_some, Option.some_inj, true_and]

instance [Stored χ] [HoldsNumbers χ] [LawfulStored χ] : LawfulStored (Solution χ) where
  decode?_encode {s t} := by
    show ((decode? (encode s.x)).bind fun x => (decode? (encode s.value)).bind fun value =>
      (decode? (encode s.counters)).bind fun counters => some (Solution.mk x value counters)) =
        some t ↔ (AllFinite s.x ∧ AllFinite s.value) ∧ s = t
    simp only [bind_decode?_encode, Option.some_inj, and_assoc]
    exact and_congr_right fun _ => and_congr_right fun _ => and_iff_right trivial

instance : LawfulStored Report where
  decode?_encode {r t} := by
    cases r with
    | invalidBracket a b fa fb =>
        show ((number? (encodeNumber a)).bind fun a => (number? (encodeNumber b)).bind fun b =>
          (number? (encodeNumber fa)).bind fun fa => (number? (encodeNumber fb)).bind fun fb =>
            some (Report.invalidBracket a b fa fb)) = some t ↔
          (AllFinite a ∧ AllFinite b ∧ AllFinite fa ∧ AllFinite fb) ∧ _
        simp only [bind_number?_encodeNumber, Option.some_inj, and_assoc]
        rfl
    | maxIterationsExceeded iterations =>
        show ((size? (encodeSize iterations)).bind fun iterations =>
          some (Report.maxIterationsExceeded iterations)) = some t ↔ True ∧ _
        rw [size?_encodeSize, Option.bind_some, Option.some_inj, true_and]
    | singularJacobian iteration =>
        show ((size? (encodeSize iteration)).bind fun iteration =>
          some (Report.singularJacobian iteration)) = some t ↔ True ∧ _
        rw [size?_encodeSize, Option.bind_some, Option.some_inj, true_and]
    | divergence iteration residualNorm =>
        show ((size? (encodeSize iteration)).bind fun iteration =>
          (number? (encodeNumber residualNorm)).bind fun residualNorm =>
            some (Report.divergence iteration residualNorm)) = some t ↔ AllFinite residualNorm ∧ _
        simp only [size?_encodeSize, Option.bind_some, bind_number?_encodeNumber, Option.some_inj]
        rfl
    | evaluationFailure error =>
        show some (Report.evaluationFailure error) = some t ↔ True ∧ _
        rw [Option.some_inj, true_and]
    | dimensionMismatch expected got =>
        show ((size? (encodeSize expected)).bind fun expected =>
          (size? (encodeSize got)).bind fun got =>
            some (Report.dimensionMismatch expected got)) = some t ↔ True ∧ _
        simp only [size?_encodeSize, Option.bind_some, Option.some_inj, true_and]
    | invalidInput text =>
        show some (Report.invalidInput text) = some t ↔ True ∧ _
        rw [Option.some_inj, true_and]

variable [FloatingPoint α] [Widens α]

instance : LawfulStored (SearchConfig α) where
  decode?_encode {c d} := by
    show ((number? (encodeNumber c.tolerance)).bind fun tolerance =>
      (number? (encodeNumber c.functionTolerance)).bind fun functionTolerance =>
      (size? (encodeSize c.maxIterations)).bind fun maxIterations =>
        some (SearchConfig.mk tolerance functionTolerance maxIterations c.bisectionOnly)) =
        some d ↔ (_ ∧ _) ∧ c = d
    simp only [size?_encodeSize, Option.bind_some, bind_number?_encodeNumber, Option.some_inj,
      and_assoc]

instance : LawfulStored (NewtonConfig α) where
  decode?_encode {c d} := by
    show ((number? (encodeNumber c.tolerance)).bind fun tolerance =>
      (size? (encodeSize c.maxIterations)).bind fun maxIterations =>
      (size? (encodeSize c.maxBacktracks)).bind fun maxBacktracks =>
      (number? (encodeNumber c.sufficientDecrease)).bind fun sufficientDecrease =>
      (number? (encodeNumber c.minDamping)).bind fun minDamping =>
      (norm? (encode c.norm)).bind fun norm =>
      (size? (encodeSize c.divergenceWindow)).bind fun divergenceWindow =>
      (number? (encodeNumber c.divergenceThreshold)).bind fun divergenceThreshold =>
        some (NewtonConfig.mk tolerance maxIterations c.lineSearch maxBacktracks
          sufficientDecrease minDamping norm divergenceWindow divergenceThreshold)) =
        some d ↔ (_ ∧ _ ∧ _ ∧ _) ∧ c = d
    simp only [size?_encodeSize, norm?_encode, Option.bind_some, bind_number?_encodeNumber,
      Option.some_inj, and_assoc]

end Records

end Nonlinear
