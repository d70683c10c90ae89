import Nonlinear.ForwardDifference
import Nonlinear.Proofs.System

/-! # Sweeps of forward differences

One column of an estimate is left in one of three ways.  By these the calls of a sweep tell all the
rest of it: what it counts, which columns it overwrites and with what, and how it ends.
-/

namespace Nonlinear

theorem DenseMatrix.entry_setColumn {α : Type} {m n : Nat} (a : DenseMatrix α m n) (j : Fin n)
    (column : Fin m → α) (i : Fin m) (j' : Fin n) :
    (a.setColumn j column).entry i j' = if j' = j then column i else a.entry i j' := by
  show (Vector.ofFn fun i => (a.get i).set j (column i) j.isLt)[i.val][j'.val] = _
  rw [Vector.getElem_ofFn, Vector.getElem_set]
  by_cases same : j' = j
  · rw [if_pos same, if_pos (congrArg Fin.val same.symm)]
  · rw [if_neg same, if_neg fun eq => same (Fin.ext eq.symm)]
    rfl

theorem get_of_all {α : Type} {n : Nat} {v : Vector α n} {good : α → Bool}
    (h : v.all good = true) (i : Fin n) : good (v.get i) = true :=
  Vector.all_eq_true.mp h i.val i.isLt

variable {α : Type} [Scalar α] {n : Nat}

open Scalar

namespace DifferenceStep

variable (step : DifferenceStep α) (x : Vector α n) (j : Fin n)

/-- The point with coordinate `j` moved. -/
def moved : Vector α n := x.set j (x.get j + step.size (x.get j)) j.isLt

/-- How far coordinate `j` is really moved. -/
def distance : α := x.get j + step.size (x.get j) - x.get j

/-- The step in coordinate `j` is not refused. -/
def Taken : Prop := 0.0 < step.size (x.get j) ∧ isFinite (step.size (x.get j)) = true

instance : Decidable (step.Taken x j) := by unfold Taken; infer_instance

theorem get_moved (i : Fin n) :
    (step.moved x j).get i = if i = j then x.get j + step.size (x.get j) else x.get i := by
  show (x.set j _ j.isLt)[i.val] = _
  rw [Vector.getElem_set]
  by_cases same : i = j
  · rw [if_pos (congrArg Fin.val same.symm), if_pos same]
  · rw [if_neg fun eq => same (Fin.ext eq.symm), if_neg same]
    rfl

variable {step x j}

/-- A step that is taken is positive and finite. -/
theorem perturb_ok {p : Perturbation α n} (h : step.perturb x j = .ok p) :
    0.0 < step.size (x.get j) ∧ Scalar.isFinite (step.size (x.get j)) = true ∧
      p = ⟨x.set j (x.get j + step.size (x.get j)) j.isLt,
        x.get j + step.size (x.get j) - x.get j⟩ := by
  unfold perturb at h
  dsimp only at h
  split at h
  · cases h
  · rename_i taken
    rw [not_or, Decidable.not_not, Decidable.not_not] at taken
    cases h
    exact ⟨taken.1, taken.2, rfl⟩

theorem perturb_of_taken (h : step.Taken x j) :
    step.perturb x j = .ok ⟨step.moved x j, step.distance x j⟩ :=
  if_neg (by rw [not_or, Decidable.not_not, Decidable.not_not]; exact h)

theorem perturb_of_refused (h : ¬ step.Taken x j) :
    step.perturb x j = .error (.input (.step (step.size (x.get j)))) :=
  if_pos (Decidable.not_and_iff_not_or_not.mp h)

end DifferenceStep

namespace VectorCall

variable (call : VectorCall α n)

/-- The call was answered, with finite values. -/
def Usable : Prop := call.answer.error = none ∧ call.answer.contents.all isFinite = true

/-- Why a call with coordinate `j` moved is of no use. -/
inductive Spoils (j : Fin n) : Fault α → Prop
  | reported {e : EvaluationError} : call.answer.error = some e → Spoils j (.reported e)
  | nonFinite : call.answer.error = none → ¬ call.answer.contents.all isFinite = true →
      Spoils j (.nonFinitePerturbed j (call.point.get j))

variable {call} {j : Fin n} {fault : Fault α}

theorem Spoils.not_usable (h : call.Spoils j fault) : ¬ call.Usable := by
  rintro ⟨answered, finite⟩
  cases h with
  | reported said =>
      rw [answered] at said
      cases said
  | nonFinite _ infinite => exact infinite finite

end VectorCall

namespace DifferenceSweep

section Run

variable {ε : Type} {sweep : DifferenceSweep α n n n}

omit [Scalar α] in
theorem toRun_ok {a : DenseMatrix α n n} {counters : Counters}
    (h : (sweep.toRun : SystemRun α n ε _).outcome = .ok (a, counters)) :
    sweep.outcome = .ok () ∧ sweep.jacobian = a ∧ sweep.counters = counters := by
  obtain ⟨jacobian, counted, calls, outcome⟩ := sweep
  cases outcome with
  | error e => cases h
  | ok _ =>
      cases h
      exact ⟨rfl, rfl, rfl⟩

omit [Scalar α] in
theorem toRun_outcome (h : sweep.outcome = .ok ()) :
    (sweep.toRun : SystemRun α n ε _).outcome = .ok (sweep.jacobian, sweep.counters) := by
  rw [toRun, h]
  rfl

omit [Scalar α] in
theorem toRun_error {e : Failure α} (h : (sweep.toRun : SystemRun α n ε _).outcome = .error e) :
    sweep.outcome = .error e := by
  obtain ⟨jacobian, counted, calls, outcome⟩ := sweep
  cases outcome with
  | error e' =>
      cases h
      rfl
  | ok _ => cases h

omit [Scalar α] in
theorem complete_of_isOk (h : sweep.outcome.isOk = true) : sweep.outcome = .ok () := by
  obtain ⟨jacobian, counted, calls, outcome⟩ := sweep
  cases outcome with
  | error e => cases h
  | ok _ => rfl

end Run

variable {f : VectorFunction α n} {step : DifferenceStep α} {x fx : Vector α n}

/-- What becomes of one column: its step is refused, its call is of no use, or it is overwritten and
the sweep goes on. -/
theorem columns_cons (f : VectorFunction α n) (step : DifferenceStep α) (x fx : Vector α n)
    (j : Fin n) (js : List (Fin n)) (k : Nat) (buffer : Vector α n) (jacobian : DenseMatrix α n n)
    (counters : Counters) :
    let call : VectorCall α n := ⟨step.moved x j, f k (step.moved x j) buffer⟩
    let sweep := columns f step x fx (j :: js) k buffer jacobian counters
    (¬ step.Taken x j ∧
        sweep = ⟨jacobian, counters, [], .error (.input (.step (step.size (x.get j))))⟩) ∨
      step.Taken x j ∧
        ((∃ fault, call.Spoils j fault ∧
            sweep = ⟨jacobian, counters.countFunction, [call], .error (.evaluation fault)⟩) ∨
          call.Usable ∧ ∃ rest,
            rest = columns f step x fx js (k + 1) call.answer.contents
              (jacobian.setColumn j fun i =>
                (call.answer.contents.get i - fx.get i) / step.distance x j)
              counters.countFunction ∧
            sweep = { rest with calls := call :: rest.calls }) := by
  intro call sweep
  by_cases taken : step.Taken x j
  · refine .inr ⟨taken, ?_⟩
    have eq : sweep = columns f step x fx (j :: js) k buffer jacobian counters := rfl
    rw [columns, DifferenceStep.perturb_of_taken taken] at eq
    dsimp only at eq
    cases said : call.answer.error with
    | some e =>
        have outcome : (call.answer.outcome : Except (Failure α) (Vector α n)) =
            .error (.evaluation (.reported e)) := Written.outcome_of_some said
        rw [outcome] at eq
        exact .inl ⟨_, .reported said, eq⟩
    | none =>
        have outcome : (call.answer.outcome : Except (Failure α) (Vector α n)) =
            .ok call.answer.contents := Written.outcome_of_none said
        rw [outcome] at eq
        dsimp only at eq
        by_cases finite : call.answer.contents.all isFinite = true
        · rw [if_neg fun not => not finite] at eq
          exact .inr ⟨⟨said, finite⟩, _, rfl, eq⟩
        · rw [if_pos finite] at eq
          exact .inl ⟨_, .nonFinite said finite, eq⟩
  · refine .inl ⟨taken, ?_⟩
    show columns f step x fx (j :: js) k buffer jacobian counters = _
    rw [columns, DifferenceStep.perturb_of_refused taken]

variable {js : List (Fin n)} {k : Nat} {buffer : Vector α n} {jacobian : DenseMatrix α n n}
  {counters : Counters}

theorem columns_counters (f : VectorFunction α n) (step : DifferenceStep α) (x fx : Vector α n)
    (js : List (Fin n)) (k : Nat) (buffer : Vector α n) (jacobian : DenseMatrix α n n)
    (counters : Counters) :
    let sweep := columns f step x fx js k buffer jacobian counters
    sweep.counters = { counters with
      functionEvaluations := counters.functionEvaluations + sweep.calls.length } := by
  induction js generalizing k buffer jacobian counters with
  | nil => rfl
  | cons j js ih =>
      dsimp only
      rcases columns_cons f step x fx j js k buffer jacobian counters with
        ⟨-, eq⟩ | ⟨-, ⟨_, -, eq⟩ | ⟨-, _, rfl, eq⟩⟩
      · rw [eq]
        rfl
      · rw [eq]
        rfl
      · rw [eq, List.length_cons]
        dsimp only
        rw [ih]
        dsimp only [Counters.countFunction]
        rw [Nat.add_right_comm, Nat.add_assoc]

/-- The calls of a sweep move one coordinate after another. -/
theorem columns_call {l : Nat} {call : VectorCall α n}
    (h : (columns f step x fx js k buffer jacobian counters).calls[l]? = some call) :
    ∃ j buffer, js[l]? = some j ∧ step.Taken x j ∧
      call = ⟨step.moved x j, f (k + l) (step.moved x j) buffer⟩ := by
  induction js generalizing k buffer jacobian counters l with
  | nil => cases h
  | cons j js ih =>
      rcases columns_cons f step x fx j js k buffer jacobian counters with
        ⟨-, eq⟩ | ⟨taken, ⟨_, -, eq⟩ | ⟨-, _, rfl, eq⟩⟩
      · rw [eq] at h
        cases h
      · rw [eq] at h
        cases l with
        | zero =>
            cases h
            exact ⟨j, buffer, rfl, taken, rfl⟩
        | succ l => cases h
      · rw [eq] at h
        cases l with
        | zero =>
            cases h
            exact ⟨j, buffer, rfl, taken, rfl⟩
        | succ l =>
            obtain ⟨j', buffer', at_l, taken', same⟩ := ih h
            rw [Nat.add_right_comm] at same
            exact ⟨j', buffer', at_l, taken', same⟩

/-- A column is as it was unless its call was of use. -/
theorem columns_frame {j : Fin n} (i : Fin n)
    (h : ∀ (l : Nat) (call : VectorCall α n), js[l]? = some j →
      (columns f step x fx js k buffer jacobian counters).calls[l]? = some call → ¬ call.Usable) :
    (columns f step x fx js k buffer jacobian counters).jacobian.entry i j =
      jacobian.entry i j := by
  induction js generalizing k buffer jacobian counters with
  | nil => rfl
  | cons first js ih =>
      rcases columns_cons f step x fx first js k buffer jacobian counters with
        ⟨-, eq⟩ | ⟨-, ⟨_, -, eq⟩ | ⟨usable, _, rfl, eq⟩⟩
      · rw [eq]
      · rw [eq]
      · rw [eq] at h ⊢
        have other : j ≠ first := fun same => h 0 _ (congrArg some same.symm) rfl usable
        refine (ih fun l call => h (l + 1) call).trans ?_
        rw [DenseMatrix.entry_setColumn, if_neg other]

/-- A column whose call was of use holds the difference quotients. -/
theorem columns_filled {j : Fin n} {l : Nat} {call : VectorCall α n} (distinct : js.Nodup)
    (at_l : js[l]? = some j)
    (called : (columns f step x fx js k buffer jacobian counters).calls[l]? = some call)
    (usable : call.Usable) (i : Fin n) :
    (columns f step x fx js k buffer jacobian counters).jacobian.entry i j =
      (call.answer.contents.get i - fx.get i) / step.distance x j := by
  induction js generalizing k buffer jacobian counters l with
  | nil => cases at_l
  | cons first js ih =>
      obtain ⟨fresh, distinct⟩ := List.nodup_cons.mp distinct
      rcases columns_cons f step x fx first js k buffer jacobian counters with
        ⟨-, eq⟩ | ⟨-, ⟨_, spoils, eq⟩ | ⟨-, _, rfl, eq⟩⟩
      · rw [eq] at called
        cases called
      · rw [eq] at called
        cases l with
        | zero =>
            cases called
            exact absurd usable spoils.not_usable
        | succ l => cases called
      · rw [eq] at called ⊢
        cases l with
        | zero =>
            cases at_l
            cases called
            refine (columns_frame i fun l _ later => ?_).trans ?_
            · exact absurd (List.mem_of_getElem? later) fresh
            · rw [DenseMatrix.entry_setColumn, if_pos rfl]
        | succ l => exact ih distinct at_l called

/-- How a sweep over the columns `js` ends, by its calls. -/
inductive Ends (step : DifferenceStep α) (x : Vector α n) (js : List (Fin n))
    (calls : List (VectorCall α n)) : Except (Failure α) Unit → Prop
  | complete : calls.length = js.length → (∀ call ∈ calls, call.Usable) →
      Ends step x js calls (.ok ())
  | refused {j : Fin n} : js[calls.length]? = some j → (∀ call ∈ calls, call.Usable) →
      ¬ step.Taken x j → Ends step x js calls (.error (.input (.step (step.size (x.get j)))))
  | spoiled {j : Fin n} {before : List (VectorCall α n)} {call : VectorCall α n}
      {fault : Fault α} :
      calls = before ++ [call] → js[before.length]? = some j → (∀ call ∈ before, call.Usable) →
      call.Spoils j fault → Ends step x js calls (.error (.evaluation fault))

theorem Ends.cons {calls : List (VectorCall α n)} {outcome : Except (Failure α) Unit}
    (h : Ends step x js calls outcome) (j : Fin n) {call : VectorCall α n}
    (usable : call.Usable) : Ends step x (j :: js) (call :: calls) outcome := by
  cases h with
  | complete all others =>
      exact .complete (congrArg (· + 1) all) (List.forall_mem_cons.mpr ⟨usable, others⟩)
  | refused at_end others refused =>
      exact .refused at_end (List.forall_mem_cons.mpr ⟨usable, others⟩) refused
  | spoiled last at_end others spoils =>
      refine .spoiled ((congrArg (call :: ·) last).trans (List.cons_append ..).symm) at_end
        (List.forall_mem_cons.mpr ⟨usable, others⟩) spoils

theorem columns_ends (f : VectorFunction α n) (step : DifferenceStep α) (x fx : Vector α n)
    (js : List (Fin n)) (k : Nat) (buffer : Vector α n) (jacobian : DenseMatrix α n n)
    (counters : Counters) :
    Ends step x js (columns f step x fx js k buffer jacobian counters).calls
      (columns f step x fx js k buffer jacobian counters).outcome := by
  induction js generalizing k buffer jacobian counters with
  | nil => exact .complete rfl fun _ mem => absurd mem List.not_mem_nil
  | cons j js ih =>
      rcases columns_cons f step x fx j js k buffer jacobian counters with
        ⟨refused, eq⟩ | ⟨-, ⟨_, spoils, eq⟩ | ⟨usable, _, rfl, eq⟩⟩
      · rw [eq]
        exact .refused rfl (fun _ mem => absurd mem List.not_mem_nil) refused
      · rw [eq]
        exact .spoiled (List.nil_append _).symm rfl (fun _ mem => absurd mem List.not_mem_nil)
          spoils
      · rw [eq]
        exact (ih _ _ _ _).cons j usable

/-- An estimate is part of an iteration, so it counts none itself. -/
theorem columns_iterations (f : VectorFunction α n) (step : DifferenceStep α)
    (x fx : Vector α n) (js : List (Fin n)) (k : Nat) (buffer : Vector α n)
    (jacobian : DenseMatrix α n n) (counters : Counters) :
    (columns f step x fx js k buffer jacobian counters).counters.iterations =
      counters.iterations := by
  rw [columns_counters]

/-- An estimate is broken off where the residual has no usable value or a step is too small. -/
theorem columns_error {e : Failure α}
    (h : (columns f step x fx js k buffer jacobian counters).outcome = .error e) :
    (∃ fault, e = .evaluation fault) ∨ ∃ size, e = .input (.step size) := by
  have ends := columns_ends f step x fx js k buffer jacobian counters
  rw [h] at ends
  cases ends with
  | refused => exact .inr ⟨_, rfl⟩
  | spoiled => exact .inl ⟨_, rfl⟩

/-! ## Sweeps of all columns -/

omit [Scalar α] in
theorem getElem?_finRange_iff {l : Nat} {j : Fin n} :
    (List.finRange n)[l]? = some j ↔ j.val = l := by
  rw [List.getElem?_eq_some_iff]
  constructor
  · rintro ⟨bound, rfl⟩
    rw [List.getElem_finRange]
    rfl
  · rintro rfl
    refine ⟨by rw [List.length_finRange]; exact j.isLt, ?_⟩
    rw [List.getElem_finRange]
    rfl

/-- The calls of a whole sweep move every coordinate in its turn. -/
theorem fill_call {l : Nat} {call : VectorCall α n}
    (h : (fill f step x fx jacobian counters).calls[l]? = some call) :
    ∃ j buffer, j.val = l ∧ step.Taken x j ∧
      call = ⟨step.moved x j, f (l + 1) (step.moved x j) buffer⟩ := by
  obtain ⟨j, buffer, at_l, taken, same⟩ := columns_call h
  rw [Nat.add_comm] at same
  exact ⟨j, buffer, getElem?_finRange_iff.mp at_l, taken, same⟩

/-- A column is what one call of the residual gives, with the coordinate moved and every value
finite. -/
def IsColumn (f : VectorFunction α n) (step : DifferenceStep α) (x fx : Vector α n) (k : Nat)
    (j : Fin n) (column : Fin n → α) : Prop :=
  ∃ p y buffer, step.perturb x j = .ok p ∧ f k p.point buffer = ⟨y, none⟩ ∧
    y.all Scalar.isFinite = true ∧ ∀ i, column i = (y.get i - fx.get i) / p.divisor

theorem fill_counters (f : VectorFunction α n) (step : DifferenceStep α) (x fx : Vector α n)
    (jacobian : DenseMatrix α n n) (counters : Counters) :
    let sweep := fill f step x fx jacobian counters
    sweep.counters = { counters with
      functionEvaluations := counters.functionEvaluations + sweep.calls.length } :=
  columns_counters ..

theorem fill_ends (f : VectorFunction α n) (step : DifferenceStep α) (x fx : Vector α n)
    (jacobian : DenseMatrix α n n) (counters : Counters) :
    Ends step x (List.finRange n) (fill f step x fx jacobian counters).calls
      (fill f step x fx jacobian counters).outcome :=
  columns_ends ..

/-- The columns of a complete estimate are had one after another, the first by the first call. -/
theorem fill_calls (h : (fill f step x fx jacobian counters).outcome = .ok ()) (j : Fin n) :
    IsColumn f step x fx (j + 1) j ((fill f step x fx jacobian counters).jacobian.entry · j) := by
  have ends := fill_ends f step x fx jacobian counters
  rw [h] at ends
  cases ends with
  | complete all usable =>
      rw [List.length_finRange] at all
      have within := Nat.lt_of_lt_of_eq j.isLt all.symm
      have called := List.getElem?_eq_getElem within
      have usable := usable _ (List.getElem_mem within)
      have filled := columns_filled (List.nodup_finRange n) (getElem?_finRange_iff.mpr rfl) called
        usable
      obtain ⟨j', buffer, same, taken, eq⟩ := fill_call called
      obtain rfl := Fin.ext same
      rw [eq] at usable filled
      refine ⟨_, _, buffer, DifferenceStep.perturb_of_taken taken, ?_, usable.2, filled⟩
      rw [← usable.1]

/-- An entry is a difference of finite values over the distance its coordinate was moved. -/
def IsQuotient (step : DifferenceStep α) (x fx : Vector α n) (i j : Fin n) (entry : α) : Prop :=
  ∃ p y, step.perturb x j = .ok p ∧ Scalar.isFinite y = true ∧ entry = (y - fx.get i) / p.divisor

theorem fill_quotients (h : (fill f step x fx jacobian counters).outcome = .ok ()) (i j : Fin n) :
    IsQuotient step x fx i j ((fill f step x fx jacobian counters).jacobian.entry i j) := by
  obtain ⟨p, y, -, moved, -, finite, quotients⟩ := fill_calls h j
  exact ⟨p, y.get i, moved, get_of_all finite i, quotients i⟩

/-- An estimate for a residual with a finite value at every point that is asked for consists of the
difference quotients. -/
theorem fill_of_values (fx : Vector α n) {p : Fin n → Perturbation α n} {y : Fin n → Vector α n}
    (moved : ∀ j, step.perturb x j = .ok (p j))
    (answers : ∀ k j buffer, f k (p j).point buffer = ⟨y j, none⟩)
    (finite : ∀ j, (y j).all Scalar.isFinite = true) (jacobian : DenseMatrix α n n)
    (counters : Counters) :
    let sweep := fill f step x fx jacobian counters
    sweep.outcome = .ok () ∧
      sweep.counters =
        { counters with functionEvaluations := counters.functionEvaluations + n } ∧
      ∀ i j, sweep.jacobian.entry i j = ((y j).get i - fx.get i) / (p j).divisor := by
  intro sweep
  have point {j : Fin n} (taken : step.Taken x j) :
      p j = ⟨step.moved x j, step.distance x j⟩ :=
    Except.ok.inj ((moved j).symm.trans (DifferenceStep.perturb_of_taken taken))
  have usable : ∀ call ∈ sweep.calls, call.Usable := by
    intro call mem
    obtain ⟨l, called⟩ := List.getElem?_of_mem mem
    obtain ⟨j, buffer, -, taken, rfl⟩ := fill_call called
    have answer := answers (l + 1) j buffer
    rw [point taken] at answer
    dsimp only at answer
    unfold VectorCall.Usable
    rw [answer]
    exact ⟨rfl, finite j⟩
  have counted : sweep.counters = { counters with
      functionEvaluations := counters.functionEvaluations + sweep.calls.length } :=
    fill_counters ..
  have ends : Ends step x (List.finRange n) sweep.calls sweep.outcome := fill_ends ..
  generalize said : sweep.outcome = outcome at ends
  cases ends with
  | complete all _ =>
      rw [List.length_finRange] at all
      rw [all] at counted
      refine ⟨rfl, counted, fun i j => ?_⟩
      obtain ⟨p', y', buffer, moved', called, -, quotients⟩ := fill_calls said j
      obtain rfl := Except.ok.inj (moved'.symm.trans (moved j))
      rw [answers] at called
      cases called
      exact quotients i
  | refused _ _ refused =>
      cases (DifferenceStep.perturb_of_refused refused).symm.trans (moved _)
  | @spoiled _ before call _ last _ _ spoils =>
      have mem : call ∈ sweep.calls := by
        rw [last]
        exact List.mem_append_right before (List.mem_singleton_self call)
      exact absurd (usable call mem) spoils.not_usable

end DifferenceSweep

end Nonlinear
