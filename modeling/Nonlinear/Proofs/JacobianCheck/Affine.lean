import Mathlib
import Nonlinear.Proofs.Affine
import Nonlinear.Proofs.JacobianCheck

/-! # Checking the Jacobian of an affine residual

Without rounding the estimate is the matrix of the residual, so a check measures by how much a
Jacobian is off and nothing else.
-/

namespace Nonlinear

open Scalar

/-- The least bound of finitely many numbers from zero on is the greatest of them. -/
theorem isGreatest_of_le_iff {K ι : Type} [LinearOrder K] [Zero K] [Finite ι] [Nonempty ι]
    {v : ι → K} {m : K} (nonneg : ∀ i, 0 ≤ v i) (le_iff : ∀ t, m ≤ t ↔ 0 ≤ t ∧ ∀ i, v i ≤ t) :
    IsGreatest (Set.range v) m := by
  have bounds : ∀ i, v i ≤ m := ((le_iff m).mp le_rfl).2
  obtain ⟨i, greatest⟩ := Finite.exists_max v
  have attained : v i = m := le_antisymm (bounds i) ((le_iff (v i)).mpr ⟨nonneg i, greatest⟩)
  refine ⟨⟨i, attained⟩, ?_⟩
  rintro _ ⟨j, rfl⟩
  exact bounds j

variable {K : Type} [Field K] [LinearOrder K] [ExactConstants K] [IsStrictOrderedRing K] {n : Nat}

namespace Discrepancy

theorem relativeTo_le_iff {analytic numerical t : K} :
    relativeTo analytic numerical ≤ t ↔ |numerical - analytic| ≤ t * max 1 |analytic| := by
  have scale : larger |analytic| (1.0 : K) = max 1 |analytic| := by
    rw [larger_exact, literal_one, max_comm]
  show |numerical - analytic| / larger |analytic| (1.0 : K) ≤ t ↔ _
  rw [scale, div_le_iff₀ (lt_max_of_lt_left one_pos)]

theorem isGreatest_absolute (nonempty : n ≠ 0) (analytic numerical : DenseMatrix K n n) :
    IsGreatest
      (Set.range fun p : Fin n × Fin n => |numerical.entry p.1 p.2 - analytic.entry p.1 p.2|)
      (between analytic numerical).absolute := by
  have : NeZero n := ⟨nonempty⟩
  refine isGreatest_of_le_iff (fun _ => abs_nonneg _) fun t => ?_
  refine (between_absolute_le_iff analytic numerical).trans ?_
  rw [literal_zero, Prod.forall]
  exact and_congr_right fun _ => forall₂_congr fun i j => or_iff_right Bool.false_ne_true

theorem between_exact_le_iff (nonempty : n ≠ 0) (analytic numerical : DenseMatrix K n n) {t : K} :
    (between analytic numerical).relative ≤ t ↔ ∀ i j,
      |numerical.entry i j - analytic.entry i j| ≤ t * max 1 |analytic.entry i j| := by
  refine (between_le_iff analytic numerical).trans ?_
  have entries (i j : Fin n) :
      (isNaN (relativeTo (analytic.entry i j) (numerical.entry i j)) = true ∨
        relativeTo (analytic.entry i j) (numerical.entry i j) ≤ t) ↔
          |numerical.entry i j - analytic.entry i j| ≤ t * max 1 |analytic.entry i j| :=
    (or_iff_right Bool.false_ne_true).trans relativeTo_le_iff
  rw [literal_zero, forall₂_congr entries]
  refine and_iff_right_of_imp fun within => ?_
  -- one entry is enough for the tolerance not to be negative
  have : NeZero n := ⟨nonempty⟩
  have first := (abs_nonneg _).trans (within 0 0)
  exact nonneg_of_mul_nonneg_left first (lt_max_of_lt_left one_pos)

end Discrepancy

namespace JacobianCheck

variable {check : JacobianCheck K} {jacobian : JacobianFunction K n} {x : Vector K n}
  {b : DenseMatrix K n n}

theorem run_affine_outcome (nonempty : n ≠ 0) (positive : 0 < check.perturbation)
    (returns : jacobian 1 x (.replicate 0.0) = ⟨b, none⟩) (a : DenseMatrix K n n)
    (d : Vector K n) : ∃ report, (check.run (affine a d) jacobian x).outcome = .ok report ∧
      report.numerical = a ∧ report.analytic = b ∧ report.discrepancy = .between b a := by
  have values : ((affine a d).call 1 x (Vector.replicate n 0.0) :
      SystemRun K n (Event K) _).outcome = .ok (affineValues a d x) := rfl
  have slopes : (jacobian.call 1 x (.replicate 0.0) : SystemRun K n (Event K) _).outcome =
      .ok b := Written.outcome_ok_iff.mpr returns
  have swept := fill_affine (ε := Event K) (.absolute check.perturbation) (x := x)
    (fun _ => positive) a d (.replicate 0.0) { functionEvaluations := 1, jacobianEvaluations := 1 }
  have entries : b.entries.all isFinite = true := List.all_eq_true.mpr fun _ _ => rfl
  refine ⟨⟨b, a, .between b a, b.condition, ⟨0, 1 + n, 1⟩⟩, ?_, rfl, rfl, rfl⟩
  rw [run, if_neg nonempty]
  simp only [Run.bind_eq, after_affine]
  rw [Run.bind_of_ok values, if_neg fun not => not (all_isFinite_exact _), Run.bind_of_ok slopes,
    if_neg fun not => not entries, Run.bind_of_ok swept]
  rfl

/-- The check of an affine residual `a · x + d` estimates the matrix `a`.  Its largest difference is
that of the entries that differ most, and it is consistent just where every entry of the Jacobian is
right up to the tolerance. -/
theorem run_affine (nonempty : n ≠ 0) (check : JacobianCheck K)
    (positive : 0 < check.perturbation) (a b : DenseMatrix K n n) (d x : Vector K n)
    (jacobian : JacobianFunction K n) (returns : jacobian 1 x (.replicate 0.0) = ⟨b, none⟩) :
    ∃ report, (check.run (affine a d) jacobian x).outcome = .ok report ∧
      report.numerical = a ∧ report.analytic = b ∧
      IsGreatest (Set.range fun p : Fin n × Fin n => |a.entry p.1 p.2 - b.entry p.1 p.2|)
        report.discrepancy.absolute ∧
      ∀ t, report.isConsistent t = true ↔
        ∀ i j, |a.entry i j - b.entry i j| ≤ t * max 1 |b.entry i j| := by
  obtain ⟨report, ok, numerical, analytic, discrepancy⟩ :=
    run_affine_outcome nonempty positive returns a d
  refine ⟨report, ok, numerical, analytic, ?_, fun t => ?_⟩
  · rw [discrepancy]
    exact Discrepancy.isGreatest_absolute nonempty b a
  · rw [JacobianReport.isConsistent, decide_eq_true_iff, discrepancy]
    exact Discrepancy.between_exact_le_iff nonempty b a

/-- One entry is off by three, in the second column of the first row.  Relative to the wrong entry
that is three fifths. -/
theorem run_affine_wrong_entry :
    let a : DenseMatrix ℚ 2 2 := #v[#v[1, 2], #v[3, 4]]
    let b : DenseMatrix ℚ 2 2 := #v[#v[1, 5], #v[3, 4]]
    ∃ report, (run { perturbation := (1 / 10 : ℚ) } (affine a #v[7, 8]) (fun _ _ _ => ⟨b, none⟩)
        #v[5, -6]).outcome = .ok report ∧
      report.numerical = a ∧ report.analytic = b ∧ report.discrepancy.absolute = 3 ∧
      report.isConsistent (3 / 5) = true ∧ report.isConsistent (1 / 2) = false := by
  intro a b
  have positive : (0 : ℚ) < 1 / 10 := by norm_num
  obtain ⟨report, ok, numerical, analytic, greatest, consistent⟩ :=
    run_affine two_ne_zero { perturbation := (1 / 10 : ℚ) } positive a b #v[7, 8] #v[5, -6]
      (fun _ _ _ => ⟨b, none⟩) rfl
  have largest : IsGreatest
      (Set.range fun p : Fin 2 × Fin 2 => |a.entry p.1 p.2 - b.entry p.1 p.2|) 3 := by
    refine ⟨⟨(0, 1), by decide +kernel⟩, ?_⟩
    rintro _ ⟨p, rfl⟩
    revert p
    decide +kernel
  refine ⟨report, ok, numerical, analytic, greatest.unique largest, ?_, ?_⟩
  · exact (consistent _).mpr (by decide +kernel)
  · exact Bool.eq_false_iff.mpr fun agrees =>
      absurd ((consistent _).mp agrees) (by decide +kernel)

end JacobianCheck

end Nonlinear
