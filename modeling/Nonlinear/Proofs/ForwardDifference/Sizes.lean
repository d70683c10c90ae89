import Nonlinear.Proofs.ForwardDifference.Frame

/-! # Estimates of a wrong size

An estimate needs as many equations as unknowns.  A residual or a matrix of another size is
reported before anything is done, and nothing else is reported in this way.  The report names the
number of unknowns and one number for what was given, for a matrix the larger of its dimensions.
That number is a wrong one, except for a matrix that only has too few rows or too few columns.
-/

namespace Nonlinear

namespace DifferenceSweep

variable {α : Type} [Scalar α] {n k r c : Nat}

/-- The size that a report says was given: that of the residual if it is wrong, else the larger
dimension of the matrix. -/
def givenSize (n k r c : Nat) : Nat := if k = n then max r c else k

theorem givenSize_mem (n k r c : Nat) :
    givenSize n k r c = k ∨ givenSize n k r c = r ∨ givenSize n k r c = c := by
  unfold givenSize
  split
  · exact .inr (max_choice r c)
  · exact .inl rfl

theorem givenSize_eq_iff : givenSize n k r c = n ↔ k = n ∧ max r c = n := by
  unfold givenSize
  split
  · rename_i same
    exact (and_iff_right same).symm
  · rename_i differs
    exact iff_of_false differs fun hidden => differs hidden.1

variable {f : VectorFunction α n} {step : DifferenceStep α} {x : Vector α n} {counters : Counters}
  {expected got : Nat}

/-- A sweep over the columns ends for other reasons. -/
theorem fill_not_dimension {fx : Vector α n} {jacobian : DenseMatrix α n n} :
    (fill f step x fx jacobian counters).outcome ≠ .error (.dimension expected got) := by
  intro said
  have ends := fill_ends f step x fx jacobian counters
  rw [said] at ends
  cases ends

theorem fill?_error_dimension_iff {fx : Vector α k} {jacobian : DenseMatrix α r c} :
    (fill? f step x fx jacobian counters).outcome = .error (.dimension expected got) ↔
      ¬ (k = n ∧ r = n ∧ c = n) ∧ expected = n ∧ got = givenSize n k r c := by
  by_cases fits : k = n ∧ r = n ∧ c = n
  · obtain ⟨rfl, rfl, rfl⟩ := id fits
    rw [fill?_square]
    exact iff_of_false fill_not_dimension fun wrong => wrong.1 fits
  · rw [fill?_mismatch f step x fx jacobian counters fits]
    constructor
    · intro said
      cases said
      exact ⟨fits, rfl, rfl⟩
    · rintro ⟨-, rfl, rfl⟩
      rfl

/-- An estimate reports a wrong size exactly where the residual or the matrix has one, and nothing
was called, written or counted then.  It names the number of unknowns and a size that was given.
The two differ unless the residual is right and so is the larger dimension of the matrix. -/
theorem estimate_misfit (f : VectorFunction α n) (step : DifferenceStep α) (x : Vector α n)
    (fx : Vector α k) (jacobian : DenseMatrix α r c) (counters : Counters) :
    let sweep := fill? f step x fx jacobian counters
    ((∃ expected got, sweep.outcome = .error (.dimension expected got)) ↔
      ¬ (k = n ∧ r = n ∧ c = n)) ∧
    ∀ expected got, sweep.outcome = .error (.dimension expected got) →
      expected = n ∧ (got = k ∨ got = r ∨ got = c) ∧ (got = n ↔ k = n ∧ max r c = n) ∧
      sweep.jacobian = jacobian ∧ sweep.counters = counters ∧ sweep.calls = [] := by
  intro sweep
  constructor
  · constructor
    · rintro ⟨expected, got, said⟩
      exact (fill?_error_dimension_iff.mp said).1
    · intro wrong
      exact ⟨n, givenSize n k r c, fill?_error_dimension_iff.mpr ⟨wrong, rfl, rfl⟩⟩
  · intro expected got said
    obtain ⟨wrong, named, given⟩ := fill?_error_dimension_iff.mp said
    have untouched : sweep = ⟨jacobian, counters, [], _⟩ :=
      fill?_mismatch f step x fx jacobian counters wrong
    rw [given, untouched]
    exact ⟨named, givenSize_mem n k r c, givenSize_eq_iff, rfl, rfl, rfl⟩

/-- A matrix with too many rows and too few columns: the report names the rows. -/
theorem estimate_misfit_tall :
    let jacobian : DenseMatrix ℚ 5 2 := DenseMatrix.replicate 0
    let sweep := fill? (fun _ x _ => ⟨x, none⟩) .scaled #v[1, 2, 3] (#v[1, 2, 3] : Vector ℚ 3)
      jacobian {}
    sweep.outcome = .error (.dimension 3 5) ∧ 5 ≠ 3 ∧ sweep.jacobian = jacobian ∧
      sweep.counters = {} ∧ sweep.calls = [] := by
  intro jacobian sweep
  have said : sweep.outcome = .error (.dimension 3 5) := rfl
  obtain ⟨-, -, hides, untouched⟩ := (estimate_misfit (fun _ x _ => ⟨x, none⟩) .scaled #v[1, 2, 3]
    (#v[1, 2, 3] : Vector ℚ 3) jacobian {}).2 3 5 said
  exact ⟨said, fun same => absurd (hides.mp same).2 (by decide), untouched⟩

/-- A matrix with as many columns as unknowns and too few rows: the report says that two were
expected and two were given. -/
theorem flat_matrix_unnamed :
    let sweep := fill? (fun _ x _ => ⟨x, none⟩) .scaled #v[1.0, 2.0]
      (#v[1.0, 2.0] : Vector Float 2) (DenseMatrix.replicate 0.0 : DenseMatrix Float 1 2) {}
    sweep.outcome = .error (.dimension 2 2) ∧
      ¬ ∀ expected got, sweep.outcome = .error (.dimension expected got) →
        expected = 2 ∧ got ≠ 2 :=
  ⟨rfl, fun named => (named 2 2 rfl).2 rfl⟩

end DifferenceSweep

end Nonlinear
