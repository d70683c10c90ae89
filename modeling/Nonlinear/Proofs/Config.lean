import Nonlinear.Newton.Config
import Nonlinear.Search.Config

/-! # What an accepted configuration promises -/

namespace Nonlinear

open Scalar

variable {α : Type} [Scalar α]

theorem check_ok_iff {fault : ConfigFault} {p : Prop} [Decidable p]
    {rest : Except ConfigFault Unit} :
    (if p then .error fault else rest) = .ok () ↔ ¬ p ∧ rest = .ok () := by
  by_cases h : p
  · simp [h]
  · simp [h]

theorem SearchConfig.validate_ok_iff {c : SearchConfig α} :
    c.validate = .ok () ↔
      (0.0 < c.tolerance ∧ isFinite c.tolerance = true) ∧
        (0.0 ≤ c.functionTolerance ∧ isFinite c.functionTolerance = true) ∧
        c.maxIterations ≠ 0 := by
  unfold validate
  rw [check_ok_iff, check_ok_iff, check_ok_iff]
  simp only [not_or, Decidable.not_not, and_true, ne_eq]

/-- A budget that is not empty is no reason to reject a configuration. -/
theorem SearchConfig.validate_budget (c : SearchConfig α) {m n : Nat} (hm : 1 ≤ m) (hn : 1 ≤ n) :
    { c with maxIterations := m }.validate = { c with maxIterations := n }.validate := by
  have hm' : m ≠ 0 := Nat.ne_of_gt hm
  have hn' : n ≠ 0 := Nat.ne_of_gt hn
  simp [validate, hm', hn']

theorem NewtonConfig.validate_ok_iff {c : NewtonConfig α} :
    c.validate = .ok () ↔
      (0.0 < c.tolerance ∧ isFinite c.tolerance = true) ∧
        c.maxIterations ≠ 0 ∧
        (0.0 ≤ c.sufficientDecrease ∧ c.sufficientDecrease < 1.0) ∧
        (0.0 < c.minDamping ∧ c.minDamping ≤ 1.0) ∧
        c.divergenceWindow ≠ 0 ∧
        c.tolerance < c.divergenceThreshold := by
  unfold validate
  rw [check_ok_iff, check_ok_iff, check_ok_iff, check_ok_iff, check_ok_iff, check_ok_iff]
  simp only [not_or, Decidable.not_not, and_true, ne_eq]

end Nonlinear
