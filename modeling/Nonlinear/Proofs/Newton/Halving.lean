import Nonlinear.Proofs.Config
import Nonlinear.Proofs.FloatingPoint.Infinity
import Nonlinear.Proofs.Newton.Requests

/-! # The damping factors of a line search

A line search tries the damping factors 1, 1/2, 1/4 and so on.  A factor is permitted if there are
enough halvings for it and it is not below the smallest damping factor.  The search ends with the
first permitted factor that reduces the norm enough, and otherwise with the last permitted one.  In
doubles the factors are exact as long as they are permitted, and the one below the smallest
subnormal number is zero, so there are never more than 1075 trials.
-/

namespace Nonlinear

open Scalar

namespace Newton

section Attempts

variable {α ε : Type} [Scalar α] {n : Nat}

/-- What the buffers hold after `i` trials, the first of which makes call `k + 1`. -/
def Trial.attempt (trial : Trial α n) (f : VectorFunction α n) (k : Nat) (x : Vector α n)
    (step : Array α) : (i : Nat) → Trial α n
  | 0 => trial
  | i + 1 =>
    let point := trial.target x step (halved i)
    ⟨point, (f (k + i + 1) point (trial.attempt f k x step i).fx).contents⟩

/-- The calls of `count` trials in a row. -/
def Trial.calls (trial : Trial α n) (f : VectorFunction α n) (k : Nat) (x : Vector α n)
    (step : Array α) (first count : Nat) : List (SystemEntry α n ε) :=
  (List.range' first count).map fun i =>
    let point := trial.target x step (halved i)
    .residual ⟨point, f (k + i + 1) point (trial.attempt f k x step i).fx⟩

variable {config : NewtonConfig α} {f : VectorFunction α n} {k : Nat} {x : Vector α n}
  {step : Array α} {residual : α} {trial : Trial α n}

/-- The search ends with attempt `i`, if it gets there. -/
def Ends (config : NewtonConfig α) (f : VectorFunction α n) (k : Nat) (x : Vector α n)
    (step : Array α) (residual : α) (trial : Trial α n) (i : Nat) : Prop :=
  stops config residual (halved i) (config.norm.norm (trial.attempt f k x step (i + 1)).fx)

end Attempts

section Doubles

open BinaryScalar FloatingPoint

variable {n : Nat} {config : NewtonConfig Float} {d : Float} {i : Nat}

theorem least_exponent : (BinaryScalar.format Float).minExponent = -1074 := by decide

theorem half_pow_eq (i : Nat) : (1 / 2 : ℚ) ^ i = 2 ^ (-i : ℤ) := by
  rw [zpow_neg, zpow_natCast, one_div, inv_pow]

/-- No positive number is below the last of these factors. -/
theorem half_pow_le (pos : 0 < real d) : (1 / 2 : ℚ) ^ 1074 ≤ real d := by
  have least := (grid_real d).whole.least_le pos
  rwa [least_exponent, ← Nat.cast_ofNat (R := ℤ), ← half_pow_eq] at least

/-- What a valid configuration says about the smallest damping factor. -/
theorem minDamping_of_valid (valid : config.validate = .ok ()) :
    isNaN config.minDamping = false ∧ 0 < real config.minDamping ∧ real config.minDamping ≤ 1 := by
  obtain ⟨-, -, -, ⟨pos, le⟩, -⟩ := NewtonConfig.validate_ok_iff.mp valid
  have one := BinaryConstants.one (α := Float)
  have number : isNaN config.minDamping = false := (LawfulScalar.isNaN_of_le le).1
  rw [pos_iff_real number] at pos
  rw [le_iff_real number (isNaN_of_isFinite one.isFinite), one.real] at le
  exact ⟨number, pos, le⟩

/-- The factor after `i` halvings may be tried. -/
def Permitted (config : NewtonConfig Float) (i : Nat) : Prop :=
  i ≤ config.maxBacktracks ∧ real config.minDamping ≤ (1 / 2) ^ i

/-- The search takes attempt `j`: the first permitted one that reduces the norm enough, or else the
last permitted one.  Without line search there is one attempt. -/
def Takes (config : NewtonConfig Float) (enough : Nat → Prop) (j : Nat) : Prop :=
  if config.lineSearch = true then
    IsLeast {i | Permitted config i ∧ enough i} j ∨
      (∀ i, Permitted config i → ¬ enough i) ∧ IsGreatest {i | Permitted config i} j
  else j = 0

variable {f : VectorFunction Float n} {k j : Nat} {x : Vector Float n} {step : Array Float}
  {residual : Float} {trial : Trial Float n}

theorem Permitted.le (valid : config.validate = .ok ()) (permitted : Permitted config i) :
    i ≤ 1074 := by
  obtain ⟨-, pos, -⟩ := minDamping_of_valid valid
  have le : (1 / 2 : ℚ) ^ 1074 ≤ (1 / 2) ^ i := (half_pow_le pos).trans permitted.2
  exact (pow_le_pow_iff_right_of_lt_one₀ (by norm_num) (by norm_num)).mp le

theorem Takes.permitted (valid : config.validate = .ok ()) {enough : Nat → Prop}
    (takes : Takes config enough j) : Permitted config j := by
  unfold Takes at takes
  split at takes
  · rcases takes with least | ⟨-, greatest⟩
    · exact least.1.1
    · exact greatest.1
  · obtain ⟨-, -, le⟩ := minDamping_of_valid valid
    rw [takes]
    exact ⟨Nat.zero_le _, le.trans_eq (pow_zero _).symm⟩

end Doubles

end Newton

end Nonlinear
