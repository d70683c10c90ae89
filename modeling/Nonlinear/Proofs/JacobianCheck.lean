import Mathlib
import Nonlinear.JacobianCheck
import Nonlinear.Proofs.FloatingPoint.Infinity
import Nonlinear.Proofs.ForwardDifference

/-! # What a Jacobian check vouches for

A check keeps the largest difference it has seen, and nothing is larger than a NaN or smaller.
So a consistent report vouches for the entries that are numbers, and for no others.  An entry
of the estimate is a number where the coordinate was moved to another finite number.
-/

namespace Nonlinear

open Scalar

variable {α : Type} [Scalar α] {n : Nat}

namespace Discrepancy

/-- The difference of two entries, relative to the larger of one and the first. -/
def relativeTo (analytic numerical : α) : α :=
  magnitude (numerical - analytic) / larger (magnitude analytic) 1.0

theorem absolute_compareEntry (d : Discrepancy α) (position : Nat × Nat) (analytic numerical : α) :
    (d.compareEntry position analytic numerical).absolute =
      larger d.absolute (magnitude (numerical - analytic)) := by
  unfold compareEntry
  dsimp only
  split <;> rfl

theorem relative_compareEntry (d : Discrepancy α) (position : Nat × Nat) (analytic numerical : α)
    (number : isNaN d.relative = false) :
    (d.compareEntry position analytic numerical).relative =
      larger d.relative (relativeTo analytic numerical) := by
  rw [larger, number, if_neg Bool.false_ne_true]
  unfold compareEntry
  dsimp only
  split
  · exact (if_pos ‹_›).symm
  · exact (if_neg ‹_›).symm

variable [LawfulScalar α] {t : α}

theorem mem_positions (i j : Fin n) : (i, j) ∈ positions n :=
  List.mem_flatMap.mpr ⟨j, List.mem_finRange j, List.mem_map.mpr ⟨i, List.mem_finRange i, rfl⟩⟩

theorem between_le_iff (analytic numerical : DenseMatrix α n n) :
    (between analytic numerical).relative ≤ t ↔
      0.0 ≤ t ∧ ∀ i j, isNaN (relativeTo (analytic.entry i j) (numerical.entry i j)) = true ∨
        relativeTo (analytic.entry i j) (numerical.entry i j) ≤ t :=
  (foldl_le_iff Discrepancy.relative
    (fun d p => d.relative_compareEntry (p.1, p.2) (analytic.entry p.1 p.2)
      (numerical.entry p.1 p.2)) isNaN_zero (positions n)).trans
    (and_congr_right fun _ =>
      ⟨fun all i j => all (i, j) (mem_positions i j), fun all p _ => all p.1 p.2⟩)

theorem between_absolute_le_iff (analytic numerical : DenseMatrix α n n) :
    (between analytic numerical).absolute ≤ t ↔
      0.0 ≤ t ∧ ∀ i j, isNaN (magnitude (numerical.entry i j - analytic.entry i j)) = true ∨
        magnitude (numerical.entry i j - analytic.entry i j) ≤ t :=
  (foldl_le_iff Discrepancy.absolute
    (fun d p _ => d.absolute_compareEntry (p.1, p.2) (analytic.entry p.1 p.2)
      (numerical.entry p.1 p.2)) isNaN_zero (positions n)).trans
    (and_congr_right fun _ =>
      ⟨fun all i j => all (i, j) (mem_positions i j), fun all p _ => all p.1 p.2⟩)

end Discrepancy

omit [Scalar α] in
theorem DenseMatrix.entry_mem_entries {m : Nat} (a : DenseMatrix α m n) (i : Fin m) (j : Fin n) :
    a.entry i j ∈ a.entries :=
  List.mem_flatMap.mpr ⟨a.get i, Vector.mem_toList_iff.mpr (Vector.getElem_mem i.isLt),
    Vector.mem_toList_iff.mpr (Vector.getElem_mem j.isLt)⟩

namespace JacobianCheck

variable {check : JacobianCheck α} {f : VectorFunction α n} {jacobian : JacobianFunction α n}
  {x : Vector α n} {report : JacobianReport α n}

/-- What a report is made of. -/
structure Compares (check : JacobianCheck α) (x : Vector α n) (report : JacobianReport α n) :
    Prop where
  discrepancy : report.discrepancy = .between report.analytic report.numerical
  finite : ∀ i j, isFinite (report.analytic.entry i j) = true
  quotients : ∃ fx : Vector α n, (∀ i, isFinite (fx.get i) = true) ∧
    ∀ i j, DifferenceSweep.IsQuotient (.absolute check.perturbation) x fx i j
      (report.numerical.entry i j)

theorem compares_of_ok (h : (check.run f jacobian x).outcome = .ok report) :
    Compares check x report := by
  unfold run at h
  split at h
  · cases h
  · obtain ⟨fx, -, -, h⟩ := Run.ok_of_bind h
    split at h
    · cases h
    · rename_i finite
      obtain ⟨analytic, -, -, h⟩ := Run.ok_of_bind h
      split at h
      · cases h
      · rename_i finite'
        obtain ⟨⟨numerical, counters⟩, swept, -, h⟩ := Run.ok_of_bind h
        cases h
        rw [not_not] at finite finite'
        refine ⟨rfl, fun i j => List.all_eq_true.mp finite' _ (analytic.entry_mem_entries i j),
          fx, get_of_all finite, fun i j => ?_⟩
        obtain ⟨complete, rfl, -⟩ := DifferenceSweep.toRun_ok swept
        exact DifferenceSweep.fill_quotients complete i j

end JacobianCheck

section Rounded

open BinaryScalar

variable [BinaryScalar α]

omit [BinaryScalar α] in
/-- A step that takes a coordinate to another number at a finite distance. -/
def Moves (step x : α) : Prop := isFinite (x + step - x) = true ∧ (x + step - x == 0.0) = false

instance (step x : α) : Decidable (Moves step x) := by
  unfold Moves; infer_instance

theorem isNaN_quotient {step : α} {x fx : Vector α n} {i j : Fin n} {entry : α}
    (quotient : DifferenceSweep.IsQuotient (.absolute step) x fx i j entry)
    (finite : isFinite (fx.get i) = true) (moves : Moves step (x.get j)) :
    isNaN entry = false := by
  obtain ⟨p, y, moved, finite', rfl⟩ := quotient
  obtain ⟨finite_divisor, nonzero⟩ := moves
  obtain ⟨-, -, rfl⟩ := DifferenceStep.perturb_ok moved
  have number := isNaN_of_isFinite finite_divisor
  refine isNaN_div_of_finite (sub_rounded finite' finite).isNaN finite_divisor fun zero => ?_
  exact Bool.false_ne_true (nonzero.symm.trans ((beq_zero_iff_real number).mpr zero))

variable [BinaryConstants α]

theorem larger_one {x : α} (finite : isFinite x = true) :
    isFinite (larger x 1.0) = true ∧ real (larger x 1.0) ≠ 0 := by
  have one := BinaryConstants.one (α := α)
  obtain ⟨finite', value⟩ := larger_spec finite one.isFinite
  refine ⟨finite', ?_⟩
  rw [value, one.real]
  exact (zero_lt_one.trans_le (le_max_right _ _)).ne'

/-- The relative difference is a NaN just where the second entry is. -/
theorem isNaN_relativeTo {analytic numerical : α} (finite : isFinite analytic = true) :
    isNaN (Discrepancy.relativeTo analytic numerical) = isNaN numerical := by
  cases number : isNaN numerical with
  | true =>
      refine Bool.not_eq_false _ |>.mp fun number' => ?_
      have difference := (isNaN_of_div number').1
      rw [isNaN_magnitude] at difference
      exact Bool.false_ne_true ((isNaN_of_sub difference).1.symm.trans number)
  | false =>
      obtain ⟨finite', nonzero⟩ :=
        larger_one ((LawfulScalar.isFinite_magnitude analytic).trans finite)
      refine isNaN_div_of_finite ?_ finite' nonzero
      rw [isNaN_magnitude]
      exact isNaN_sub_of_finite number finite

namespace JacobianReport

/-- The relative difference at one entry. -/
def relative (report : JacobianReport α n) (i j : Fin n) : α :=
  Discrepancy.relativeTo (report.analytic.entry i j) (report.numerical.entry i j)

end JacobianReport

namespace JacobianCheck

variable {check : JacobianCheck α} {f : VectorFunction α n} {jacobian : JacobianFunction α n}
  {x : Vector α n} {report : JacobianReport α n}

/-- A consistent report says of every entry of the estimate that it is a NaN or agrees.  If the
perturbation moves every coordinate, there is no NaN and all entries agree. -/
theorem run_isConsistent_iff (ok : (check.run f jacobian x).outcome = .ok report) (t : α) :
    (report.isConsistent t = true ↔
      0.0 ≤ t ∧ ∀ i j, isNaN (report.numerical.entry i j) = true ∨ report.relative i j ≤ t) ∧
    ((∀ j, Moves check.perturbation (x.get j)) →
      (report.isConsistent t = true ↔ 0.0 ≤ t ∧ ∀ i j, report.relative i j ≤ t) ∧
        ∀ i j, isNaN (report.numerical.entry i j) = false) := by
  obtain ⟨discrepancy, finite, fx, finite', quotients⟩ := compares_of_ok ok
  have vouches : report.isConsistent t = true ↔
      0.0 ≤ t ∧ ∀ i j, isNaN (report.numerical.entry i j) = true ∨ report.relative i j ≤ t := by
    rw [JacobianReport.isConsistent, decide_eq_true_iff, discrepancy, Discrepancy.between_le_iff]
    refine and_congr_right fun _ => forall₂_congr fun i j => ?_
    rw [isNaN_relativeTo (finite i j)]
    rfl
  refine ⟨vouches, fun moves => ?_⟩
  have numbers (i j : Fin n) : isNaN (report.numerical.entry i j) = false :=
    isNaN_quotient (quotients i j) (finite' i) (moves j)
  refine ⟨vouches.trans (and_congr_right fun _ => forall₂_congr fun i j => ?_), numbers⟩
  rw [numbers i j]
  exact or_iff_right Bool.false_ne_true

/-- A coordinate as its own residual. -/
def itself : VectorFunction Float 1 := fun _ x _ => ⟨x, none⟩

/-- A slope of five everywhere. -/
def steep : JacobianFunction Float 1 := fun _ _ _ => ⟨#v[#v[5.0]], none⟩

/-- Half a unit moves the origin, so all that is left to see is the wrong slope. -/
theorem run_isConsistent_iff_steep :
    ∃ report, (run { perturbation := (0.5 : Float) } itself steep #v[0.0]).outcome = .ok report ∧
      report.isConsistent 1.0 = true ∧ ∀ i j, report.relative i j ≤ 1.0 := by
  have arrives : ((run { perturbation := (0.5 : Float) } itself steep #v[0.0]).outcome.toOption.any
      fun report => report.isConsistent 1.0) = true := by decide +kernel
  obtain ⟨report, arrived, consistent⟩ := (Option.any_eq_true _ _).mp arrives
  have ok := Run.ok_of_toOption arrived
  have moves : ∀ j, Moves (0.5 : Float) ((#v[0.0] : Vector Float 1).get j) := by decide +kernel
  exact ⟨report, ok, consistent, (((run_isConsistent_iff ok 1.0).2 moves).1.mp consistent).2⟩

/-- From ten thousand million no coordinate is moved by the standard perturbation.  The estimate
is a NaN, and the report is consistent for a tolerance of zero. -/
theorem unmoved_vouched_for :
    ∃ report, (run standard itself steep #v[1e10]).outcome = .ok report ∧
      report.isConsistent 0.0 = true ∧ isNaN (report.numerical.entry 0 0) = true ∧
      ¬ report.relative 0 0 ≤ 0.0 := by
  have arrives : ((run standard itself steep #v[1e10]).outcome.toOption.any fun report =>
      report.isConsistent 0.0 ∧ isNaN (report.numerical.entry 0 0) = true ∧
        ¬ report.relative 0 0 ≤ 0.0) = true := by decide +kernel
  obtain ⟨report, ok, vouched⟩ := (Option.any_eq_true _ _).mp arrives
  exact ⟨report, Run.ok_of_toOption ok, of_decide_eq_true vouched⟩

end JacobianCheck

end Rounded

end Nonlinear
