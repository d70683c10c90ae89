import Mathlib
import Nonlinear.Proofs.JacobianCheck
import Nonlinear.Proofs.Scalar.Largest

/-! # Which entry a report names

One pass over the entries keeps two maxima and the position of one of them.  The position changes
only where a difference exceeds all before it, so it is that of the first entry with the largest
relative difference, column after column.  Where no entry differs there is nothing to find, and
the pass ends at the corner it began with.
-/

namespace Nonlinear

open Scalar BinaryScalar

variable {α : Type} [Scalar α] {n : Nat}

namespace Discrepancy

/-- One position comes before another, column after column. -/
def Precedes (p q : Fin n × Fin n) : Prop := toLex p.swap < toLex q.swap

theorem precedes_iff {p q : Fin n × Fin n} :
    Precedes p q ↔ p.2 < q.2 ∨ p.2 = q.2 ∧ p.1 < q.1 := Prod.Lex.toLex_lt_toLex

theorem pairwise_positions (n : Nat) : (positions n).Pairwise Precedes := by
  refine List.pairwise_flatMap.mpr ⟨fun j _ => ?_, ?_⟩
  · refine List.pairwise_map.mpr ((List.pairwise_lt_finRange n).imp fun {i i'} row => ?_)
    exact precedes_iff.mpr (.inr ⟨rfl, row⟩)
  · refine (List.pairwise_lt_finRange n).imp fun column p first q second => ?_
    obtain ⟨i, -, rfl⟩ := List.mem_map.mp first
    obtain ⟨i', -, rfl⟩ := List.mem_map.mp second
    exact precedes_iff.mpr (.inl column)

/-- The first position with the largest value is in front of all others with that value. -/
theorem lt_of_precedes {value : Fin n × Fin n → α} {p q : Fin n × Fin n}
    (first : FirstLargest value (positions n) p) (h : Precedes q p) : value q < value p := by
  obtain ⟨before, behind, same, smaller, -⟩ := first
  have ordered := pairwise_positions n
  rw [same, List.pairwise_append] at ordered
  have mem : q ∈ before ++ p :: behind := same ▸ mem_positions q.1 q.2
  rcases List.mem_append.mp mem with earlier | later
  · exact smaller q earlier
  · rcases List.mem_cons.mp later with rfl | later
    · exact absurd h (lt_irrefl _)
    · exact absurd h (lt_asymm ((List.pairwise_cons.mp ordered.2.1).1 q later))

variable {analytic numerical : DenseMatrix α n n} {d d' : Discrepancy α}

/-- The relative difference of two matrices at a position. -/
def relativeAt (analytic numerical : DenseMatrix α n n) (p : Fin n × Fin n) : α :=
  relativeTo (analytic.entry p.1 p.2) (numerical.entry p.1 p.2)

/-- What comparing one entry makes of what is known. -/
def step (analytic numerical : DenseMatrix α n n) (d : Discrepancy α) (p : Fin n × Fin n) :
    Discrepancy α :=
  d.compareEntry (p.1, p.2) (analytic.entry p.1 p.2) (numerical.entry p.1 p.2)

theorem step_of_lt {p : Fin n × Fin n} (h : d.relative < relativeAt analytic numerical p) :
    (step analytic numerical d p).relative = relativeAt analytic numerical p ∧
      (step analytic numerical d p).worst = (↑p.1, ↑p.2) := by
  unfold step compareEntry
  dsimp only
  split
  · exact ⟨rfl, rfl⟩
  · contradiction

theorem step_of_not_lt {p : Fin n × Fin n} (h : ¬ d.relative < relativeAt analytic numerical p) :
    (step analytic numerical d p).relative = d.relative ∧
      (step analytic numerical d p).worst = d.worst := by
  unfold step compareEntry
  dsimp only
  split
  · contradiction
  · exact ⟨rfl, rfl⟩

/-- Whatever the entries are, the position kept is the one before or that of an entry. -/
theorem worst_foldl (analytic numerical : DenseMatrix α n n) (d : Discrepancy α)
    (items : List (Fin n × Fin n)) :
    (items.foldl (step analytic numerical) d).worst = d.worst ∨
      ∃ p : Fin n × Fin n, (items.foldl (step analytic numerical) d).worst = (↑p.1, ↑p.2) := by
  induction items generalizing d with
  | nil => exact .inl rfl
  | cons p items ih =>
      rcases ih (step analytic numerical d p) with same | found
      · by_cases above : d.relative < relativeAt analytic numerical p
        · exact .inr ⟨p, same.trans (step_of_lt above).2⟩
        · exact .inl (same.trans (step_of_not_lt above).2)
      · exact .inr found

/-- What a pass over some entries has made of what was known before. -/
inductive Passed (analytic numerical : DenseMatrix α n n) (d : Discrepancy α)
    (items : List (Fin n × Fin n)) (d' : Discrepancy α) : Prop where
  | kept : (∀ p ∈ items, relativeAt analytic numerical p ≤ d.relative) →
      d'.relative = d.relative → d'.worst = d.worst → Passed analytic numerical d items d'
  | found (p : Fin n × Fin n) : FirstLargest (relativeAt analytic numerical) items p →
      d.relative < relativeAt analytic numerical p →
      d'.relative = relativeAt analytic numerical p → d'.worst = (↑p.1, ↑p.2) →
      Passed analytic numerical d items d'

variable [LawfulScalar α]

theorem foldl_passed (items : List (Fin n × Fin n)) (known : isNaN d.relative = false)
    (numbers : ∀ p ∈ items, isNaN (relativeAt analytic numerical p) = false) :
    Passed analytic numerical d items (items.foldl (step analytic numerical) d) := by
  induction items generalizing d with
  | nil => exact .kept (fun _ mem => absurd mem List.not_mem_nil) rfl rfl
  | cons p items ih =>
      obtain ⟨number, numbers⟩ := List.forall_mem_cons.mp numbers
      by_cases above : d.relative < relativeAt analytic numerical p
      · obtain ⟨relative, worst⟩ := step_of_lt above
        rcases ih (relative ▸ number) numbers with ⟨bound, relative', worst'⟩ |
          ⟨q, first, exceeds, relative', worst'⟩
        · rw [relative] at bound relative'
          exact .found p ⟨[], items, rfl, by simp, bound⟩ above relative' (worst'.trans worst)
        · rw [relative] at exceeds
          exact .found q (first.cons exceeds) (lt_trans above exceeds) relative' worst'
      · obtain ⟨relative, worst⟩ := step_of_not_lt above
        have below := le_of_not_lt known number above
        rcases ih (relative ▸ known) numbers with ⟨bound, relative', worst'⟩ |
          ⟨q, first, exceeds, relative', worst'⟩
        · rw [relative] at bound relative'
          exact .kept (List.forall_mem_cons.mpr ⟨below, bound⟩) relative' (worst'.trans worst)
        · rw [relative] at exceeds
          exact .found q (first.cons (lt_of_le_of_lt below exceeds)) exceeds relative' worst'

theorem between_passed
    (numbers : ∀ p, isNaN (relativeAt analytic numerical p) = false) :
    Passed analytic numerical none (positions n) (between analytic numerical) :=
  foldl_passed (positions n) isNaN_zero fun p _ => numbers p

end Discrepancy

section Rounded

variable [BinaryScalar α] [BinaryConstants α]

namespace Discrepancy

variable {analytic numerical : DenseMatrix α n n}

theorem unsigned_relativeTo (a b : α) : Unsigned (relativeTo a b) := by
  have one := BinaryConstants.one (α := α)
  refine (unsigned_magnitude _).div ((unsigned_magnitude a).larger (unsigned_of_pos ?_))
  rw [one.real]
  exact zero_lt_one

variable [DistinctValues α] [NeZero n]

omit [BinaryConstants α] in
theorem largest_absolute
    (numbers : ∀ i j, isNaN (numerical.entry i j - analytic.entry i j) = false) :
    Largest
      (fun p : Fin n × Fin n => magnitude (numerical.entry p.1 p.2 - analytic.entry p.1 p.2))
      (between analytic numerical).absolute := by
  have numbers' (p : Fin n × Fin n) :
      isNaN (magnitude (numerical.entry p.1 p.2 - analytic.entry p.1 p.2)) = false :=
    (isNaN_magnitude _).trans (numbers p.1 p.2)
  have among := foldl_larger_eq Discrepancy.absolute (fun d (p : Fin n × Fin n) =>
    d.absolute_compareEntry (p.1, p.2) (analytic.entry p.1 p.2) (numerical.entry p.1 p.2)) none
    (positions n)
  have number : isNaN (between analytic numerical).absolute = false := by
    rcases among with zero | ⟨p, -, same⟩
    · exact (congrArg isNaN zero).trans isNaN_zero
    · exact (congrArg isNaN same).symm.trans (numbers' p)
  obtain ⟨-, bound⟩ := (between_absolute_le_iff analytic numerical).mp
    (LawfulScalar.le_refl number)
  refine .of_bound (fun _ => unsigned_magnitude _) (fun p => ?_)
    (among.imp_right fun ⟨p, _, same⟩ => ⟨p, same⟩)
  exact (bound p.1 p.2).resolve_left fun nan => Bool.false_ne_true ((numbers' p).symm.trans nan)

theorem largest_relative (numbers : ∀ p, isNaN (relativeAt analytic numerical p) = false) :
    Largest (relativeAt analytic numerical) (between analytic numerical).relative := by
  rcases between_passed numbers with ⟨bound, relative, -⟩ | ⟨p, first, -, relative, -⟩
  · rw [relative]
    exact .of_bound (fun _ => unsigned_relativeTo _ _) (fun p => bound p (mem_positions p.1 p.2))
      (.inl rfl)
  · rw [relative]
    exact first.largest (numbers p) fun p => mem_positions p.1 p.2

/-- The position kept is that of the first entry with the largest relative difference. -/
theorem worst_first (numbers : ∀ p, isNaN (relativeAt analytic numerical p) = false) :
    ∃ p : Fin n × Fin n, (between analytic numerical).worst = (↑p.1, ↑p.2) ∧
      relativeAt analytic numerical p = (between analytic numerical).relative ∧
      ∀ q, Precedes q p →
        relativeAt analytic numerical q < (between analytic numerical).relative := by
  rcases between_passed numbers with ⟨bound, relative, worst⟩ | ⟨p, first, -, relative, worst⟩
  · -- no entry exceeds zero, so the corner has the largest difference, and nothing precedes it
    refine ⟨(0, 0), worst, ?_, fun q precedes => ?_⟩
    · rw [relative]
      exact (unsigned_relativeTo _ _).antisymm unsigned_zero (bound _ (mem_positions 0 0))
        ((unsigned_relativeTo _ _).nonneg (numbers _))
    · rcases precedes_iff.mp precedes with column | ⟨-, row⟩
      · exact absurd column (Fin.not_lt_zero _)
      · exact absurd row (Fin.not_lt_zero _)
  · rw [relative]
    exact ⟨p, worst, rfl, fun q precedes => lt_of_precedes first precedes⟩

omit [BinaryConstants α] [DistinctValues α] [NeZero n] in
theorem worst_of_zero (numbers : ∀ p, isNaN (relativeAt analytic numerical p) = false)
    (zero : ((between analytic numerical).relative == 0.0) = true) :
    (between analytic numerical).worst = (0, 0) := by
  rcases between_passed numbers with ⟨-, -, worst⟩ | ⟨p, -, exceeds, relative, -⟩
  · exact worst
  · rw [relative] at zero
    exact absurd exceeds (not_lt_of_le (LawfulScalar.beq_iff.mp zero).1)

end Discrepancy

namespace JacobianCheck

variable {check : JacobianCheck α} {f : VectorFunction α n} {jacobian : JacobianFunction α n}
  {x : Vector α n} {report : JacobianReport α n}

omit [BinaryScalar α] [BinaryConstants α] in
theorem nonempty_of_ok (ok : (check.run f jacobian x).outcome = .ok report) : NeZero n := by
  refine ⟨fun zero => ?_⟩
  rw [run, if_pos zero] at ok
  cases ok

variable [DistinctValues α]

/-- The entry a report names lies inside the matrix.  If the differences are numbers, the report
gives the largest of them and the largest relative one, and the entry it names is the first that
has the latter, column after column. -/
theorem run_names_worst (ok : (check.run f jacobian x).outcome = .ok report) :
    (∃ i j : Fin n, report.discrepancy.worst = (↑i, ↑j)) ∧
    ((∀ i j, isNaN (report.numerical.entry i j - report.analytic.entry i j) = false) →
      Largest (fun p : Fin n × Fin n =>
        magnitude (report.numerical.entry p.1 p.2 - report.analytic.entry p.1 p.2))
        report.discrepancy.absolute ∧
      Largest (fun p : Fin n × Fin n => report.relative p.1 p.2) report.discrepancy.relative ∧
      (∃ i j : Fin n, report.discrepancy.worst = (↑i, ↑j) ∧
        report.relative i j = report.discrepancy.relative ∧
        ∀ i' j' : Fin n, j' < j ∨ j' = j ∧ i' < i →
          report.relative i' j' < report.discrepancy.relative) ∧
      ((report.discrepancy.relative == 0.0) = true → report.discrepancy.worst = (0, 0))) := by
  have nonempty := nonempty_of_ok ok
  obtain ⟨discrepancy, finite, -⟩ := compares_of_ok ok
  rw [discrepancy]
  refine ⟨?_, fun numbers => ?_⟩
  · rcases Discrepancy.worst_foldl report.analytic report.numerical .none
      (Discrepancy.positions n) with corner | ⟨p, worst⟩
    · exact ⟨0, 0, corner⟩
    · exact ⟨p.1, p.2, worst⟩
  · have numbers' (p : Fin n × Fin n) :
        isNaN (Discrepancy.relativeAt report.analytic report.numerical p) = false :=
      (isNaN_relativeTo (finite p.1 p.2)).trans (isNaN_of_sub (numbers p.1 p.2)).1
    obtain ⟨p, worst, attains, first⟩ := Discrepancy.worst_first numbers'
    exact ⟨Discrepancy.largest_absolute numbers, Discrepancy.largest_relative numbers',
      ⟨p.1, p.2, worst, attains, fun i' j' precedes =>
        first (i', j') (Discrepancy.precedes_iff.mpr precedes)⟩,
      Discrepancy.worst_of_zero numbers'⟩

/-- Each component counts the other coordinate twice. -/
def crossed : VectorFunction Float 2 := fun _ x _ =>
  ⟨.ofFn fun i => x.get i + 2.0 * x.get i.rev, none⟩

/-- A slope of one everywhere. -/
def ones : JacobianFunction Float 2 := fun _ _ _ => ⟨.replicate 1.0, none⟩

/-- Two entries are off by one.  The first of them is the one below the diagonal. -/
theorem run_names_worst_crossed :
    ∃ report,
      (run { perturbation := (0.5 : Float) } crossed ones #v[0.0, 0.0]).outcome = .ok report ∧
      report.relative 1 0 = report.relative 0 1 ∧ report.discrepancy.worst = (1, 0) ∧
      Largest (fun p : Fin 2 × Fin 2 => report.relative p.1 p.2) 1.0 := by
  have arrives : ((run { perturbation := (0.5 : Float) } crossed ones #v[0.0, 0.0]
      ).outcome.toOption.any fun report => report.relative 1 0 = report.relative 0 1 ∧
        report.discrepancy.worst = (1, 0) ∧ report.discrepancy.relative = 1.0 ∧
        ∀ i j, isNaN (report.numerical.entry i j - report.analytic.entry i j) = false) = true := by
    decide +kernel
  obtain ⟨report, arrived, found⟩ := (Option.any_eq_true _ _).mp arrives
  obtain ⟨tie, worst, relative, numbers⟩ := of_decide_eq_true found
  have ok := Run.ok_of_toOption arrived
  exact ⟨report, ok, tie, worst, relative ▸ ((run_names_worst ok).2 numbers).2.1⟩

end JacobianCheck

end Rounded

end Nonlinear
