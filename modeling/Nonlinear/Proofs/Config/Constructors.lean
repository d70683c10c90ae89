import Mathlib
import Nonlinear.Proofs.Propagation
import Nonlinear.Proofs.Scalar.Largest

/-! # Constructors and checks of configurations

A constructor refuses what is not positive, and a check asks for more: a tolerance must be finite,
and below the threshold of divergence.  Up to these they agree, for the same reasons, and the
solvers accept what was made.
-/

namespace Nonlinear

open Scalar BinaryScalar

/-- A constructor agrees with a check of what it would make. -/
structure Agrees {β : Type} (made : Except Refusal β) (c : β) (checked : Except ConfigFault Unit) :
    Prop where
  refuses_iff : (∃ refusal, made = .error refusal) ↔ checked ≠ .ok ()
  makes_iff : made = .ok c ↔ checked = .ok ()
  tolerance_iff : made = .error .tolerance ↔ checked = .error .tolerance
  maxIterations_iff : made = .error .maxIterations ↔ checked = .error .maxIterations

theorem Agrees.of_tests {β : Type} {p q : Prop} [Decidable p] [Decidable q] (c : β) :
    Agrees (if p then .error .tolerance else if q then .error .maxIterations else .ok c) c
      (if p then .error .tolerance else if q then .error .maxIterations else .ok ()) := by
  by_cases hp : p
  · rw [if_pos hp, if_pos hp]
    constructor <;> simp
  · rw [if_neg hp, if_neg hp]
    by_cases hq : q
    · rw [if_pos hq, if_pos hq]
      constructor <;> simp
    · rw [if_neg hq, if_neg hq]
      constructor <;> simp

/-- Arguments that are refused make nothing. -/
theorem eq_of_tests {β : Type} {p q : Prop} [Decidable p] [Decidable q] {c c' : β}
    (h : (if p then .error .tolerance else if q then .error .maxIterations else .ok c) =
      (.ok c' : Except Refusal β)) : c' = c := by
  split at h
  · cases h
  · split at h
    · cases h
    · cases h
      rfl

variable {α : Type} [Scalar α]

/-- Short of infinity, what is positive is also finite. -/
theorem tests_iff [BinaryScalar α] [BinaryConstants α] [DistinctValues α] {tolerance : α}
    (bounded : tolerance ≠ 1.0 / 0.0) :
    ¬ 0.0 < tolerance ∨ ¬ isFinite tolerance ↔ ¬ 0.0 < tolerance := by
  refine or_iff_left_of_imp fun infinite pos => bounded (eq_infinity (le_of_lt pos) ?_)
  exact Bool.eq_false_iff.mpr infinite

namespace SearchConfig

/-- What the constructor makes. -/
def made (tolerance : α) (maxIterations : Nat) : SearchConfig α :=
  { standard with tolerance, maxIterations }

theorem create_eq (tolerance : α) (maxIterations : Nat) :
    create tolerance maxIterations =
      if ¬ 0.0 < tolerance then .error .tolerance
      else if maxIterations = 0 then .error .maxIterations
      else .ok (made tolerance maxIterations) := rfl

variable [BinaryScalar α] [BinaryConstants α]

/-- The standard function tolerance passes its test. -/
theorem validate_made (tolerance : α) (maxIterations : Nat) :
    (made tolerance maxIterations).validate =
      if ¬ 0.0 < tolerance ∨ ¬ isFinite tolerance then .error .tolerance
      else if maxIterations = 0 then .error .maxIterations else .ok () := by
  have small := BinaryConstants.epsilon (α := α)
  have nonneg : (0.0 : α) ≤ epsilon := by
    rw [le_iff_real isNaN_zero (isNaN_of_isFinite small.isFinite), real_zero, small.real]
    positivity
  have passes : ¬ (¬ (0.0 : α) ≤ epsilon ∨ ¬ isFinite (epsilon : α)) := by
    rw [not_or, not_not, not_not]
    exact ⟨nonneg, small.isFinite⟩
  rw [validate, made, standard, if_neg passes]

variable [DistinctValues α]

theorem create_agrees {tolerance : α} (bounded : tolerance ≠ 1.0 / 0.0) (maxIterations : Nat) :
    Agrees (create tolerance maxIterations) (made tolerance maxIterations)
      (made tolerance maxIterations).validate := by
  rw [create_eq, validate_made, if_congr (tests_iff bounded) rfl rfl]
  exact .of_tests _

end SearchConfig

namespace NewtonConfig

/-- What the constructor makes. -/
def made (tolerance : α) (maxIterations : Nat) : NewtonConfig α :=
  { standard with tolerance, maxIterations }

theorem create_eq (tolerance : α) (maxIterations : Nat) :
    create tolerance maxIterations =
      if ¬ 0.0 < tolerance then .error .tolerance
      else if maxIterations = 0 then .error .maxIterations
      else .ok (made tolerance maxIterations) := rfl

/-- All other standard fields pass their tests. -/
theorem validate_made (tolerance : Float) (maxIterations : Nat) :
    (made tolerance maxIterations).validate =
      if ¬ 0.0 < tolerance ∨ ¬ isFinite tolerance then .error .tolerance
      else if maxIterations = 0 then .error .maxIterations
      else if ¬ tolerance < 1e100 then .error .divergenceThreshold else .ok () := by
  have decrease : (0.0 : Float) ≤ 1e-4 ∧ (1e-4 : Float) < 1.0 := by decide +kernel
  have damping : (0.0 : Float) < 1e-6 ∧ (1e-6 : Float) ≤ 1.0 := by decide +kernel
  rw [validate, made, standard, if_neg (not_not.mpr decrease), if_neg (not_not.mpr damping)]
  rfl

theorem create_agrees {tolerance : Float} {maxIterations : Nat} (bounded : tolerance ≠ 1.0 / 0.0)
    (low : maxIterations = 0 ∨ ¬ 1e100 ≤ tolerance) :
    Agrees (create tolerance maxIterations) (made tolerance maxIterations)
      (made tolerance maxIterations).validate := by
  have same : (made tolerance maxIterations).validate =
      if ¬ 0.0 < tolerance then .error .tolerance
      else if maxIterations = 0 then .error .maxIterations else .ok () := by
    rw [validate_made, if_congr (tests_iff bounded) rfl rfl]
    by_cases pos : 0.0 < tolerance
    · rw [if_neg (not_not.mpr pos), if_neg (not_not.mpr pos)]
      rcases low with empty | low
      · rw [if_pos empty, if_pos empty]
      · have number := (LawfulScalar.isNaN_of_le (le_of_lt pos)).2
        have below : tolerance < 1e100 := lt_of_not_le number (by decide +kernel) low
        rw [if_neg (not_not.mpr below)]
    · rw [if_pos pos, if_pos pos]
  rw [same, create_eq]
  exact .of_tests _

/-- A tolerance that is not below the threshold of divergence is found out by the check only. -/
theorem create_of_high {tolerance : Float} {maxIterations : Nat} (bounded : tolerance ≠ 1.0 / 0.0)
    (some : maxIterations ≠ 0) (high : 1e100 ≤ tolerance) :
    create tolerance maxIterations = .ok (made tolerance maxIterations) ∧
      (made tolerance maxIterations).validate = .error .divergenceThreshold := by
  have pos : 0.0 < tolerance := lt_of_lt_of_le (by decide +kernel) high
  rw [create_eq, validate_made, if_congr (tests_iff bounded) rfl rfl, if_neg (not_not.mpr pos),
    if_neg (not_not.mpr pos), if_neg some, if_neg some, if_pos (not_lt_of_le high)]
  exact ⟨rfl, rfl⟩

end NewtonConfig

/-- Short of infinity, the constructors refuse exactly what a check of the result would reject, and
for the same field, and the solvers accept what is made.  Only the threshold of divergence is left
to the check. -/
theorem constructors_agree [BinaryScalar α] [BinaryConstants α] [DistinctValues α] :
    (∀ (tolerance : α) (maxIterations : Nat), tolerance ≠ 1.0 / 0.0 →
      Agrees (SearchConfig.create tolerance maxIterations)
        (SearchConfig.made tolerance maxIterations)
        (SearchConfig.made tolerance maxIterations).validate ∧
      ∀ c, SearchConfig.create tolerance maxIterations = .ok c → c.validate = .ok () ∧
        ∀ f a b, isFinite a = true → isFinite b = true →
          ¬ (Root.search c f a b).Rejects ∧
            ((a == b) = false → ¬ (Minimum.search c f a b).Rejects)) ∧
    (∀ (tolerance : Float) (maxIterations : Nat), tolerance ≠ 1.0 / 0.0 →
      (maxIterations = 0 ∨ ¬ 1e100 ≤ tolerance →
        Agrees (NewtonConfig.create tolerance maxIterations)
          (NewtonConfig.made tolerance maxIterations)
          (NewtonConfig.made tolerance maxIterations).validate ∧
        ∀ c, NewtonConfig.create tolerance maxIterations = .ok c → c.validate = .ok () ∧
          ∀ (n : Nat) (linear : Newton.LinearSolver Float n) f derivative guess, n ≠ 0 →
            ¬ (Newton.solve c linear f derivative guess).Rejects) ∧
      (maxIterations ≠ 0 → 1e100 ≤ tolerance →
        NewtonConfig.create tolerance maxIterations =
            .ok (NewtonConfig.made tolerance maxIterations) ∧
          (NewtonConfig.made tolerance maxIterations).validate = .error .divergenceThreshold)) := by
  refine ⟨fun tolerance maxIterations bounded => ?_, fun tolerance maxIterations bounded =>
    ⟨fun low => ?_, NewtonConfig.create_of_high bounded⟩⟩
  · have agrees := SearchConfig.create_agrees bounded maxIterations
    refine ⟨agrees, fun c ok => ?_⟩
    obtain rfl : c = .made tolerance maxIterations := eq_of_tests ok
    have valid := agrees.makes_iff.mp ok
    refine ⟨valid, fun f a b left right => ⟨?_, fun apart => ?_⟩⟩
    · rw [Root.search_rejects_iff, left, right, valid]
      simp
    · rw [Minimum.search_rejects_iff, left, right, apart, valid]
      simp
  · have agrees := NewtonConfig.create_agrees bounded low
    refine ⟨agrees, fun c ok => ?_⟩
    obtain rfl : c = .made tolerance maxIterations := eq_of_tests ok
    have valid := agrees.makes_iff.mp ok
    refine ⟨valid, fun n linear f derivative guess nonempty => ?_⟩
    rw [Newton.solve_rejects_iff, valid]
    simp [nonempty]

/-- A quarter is taken by both constructors, and a NaN by neither. -/
theorem constructors_agree_quarter :
    (0.25 : Float) ≠ 1.0 / 0.0 ∧
      (SearchConfig.made (0.25 : Float) 10).validate = .ok () ∧
      (NewtonConfig.made (0.25 : Float) 10).validate = .ok () ∧
      (SearchConfig.made (0.0 / 0.0 : Float) 10).validate = .error .tolerance := by
  obtain ⟨searches, newton⟩ := constructors_agree (α := Float)
  have finite : (0.25 : Float) ≠ 1.0 / 0.0 := by decide +kernel
  have made := (newton 0.25 10 finite).1 (.inr (by decide +kernel))
  exact ⟨finite, (searches 0.25 10 finite).1.makes_iff.mp (by decide +kernel),
    made.1.makes_iff.mp (by decide +kernel),
    (searches (0.0 / 0.0) 10 (by decide +kernel)).1.tolerance_iff.mp (by decide +kernel)⟩

/-- An infinite tolerance is taken by the constructor of a search, and one that is not below the
threshold of divergence by that of Newton's method.  The checks reject both. -/
theorem constructors_take_more :
    SearchConfig.create (1.0 / 0.0 : Float) 10 = .ok (.made (1.0 / 0.0) 10) ∧
      (SearchConfig.made (1.0 / 0.0 : Float) 10).validate = .error .tolerance ∧
      NewtonConfig.create (1e100 : Float) 10 = .ok (.made 1e100 10) ∧
      (NewtonConfig.made (1e100 : Float) 10).validate = .error .divergenceThreshold := by
  decide +kernel

end Nonlinear
