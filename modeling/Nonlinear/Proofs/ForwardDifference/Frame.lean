import Nonlinear.Proofs.ForwardDifference
import Nonlinear.Proofs.Scalar.Exact

/-! # What an estimate leaves behind

The calls of a sweep tell all the rest of it.  A column is overwritten where its call was answered
with finite values, and nowhere else.  A sweep ends with the first column whose step is refused or
whose answer is of no use, so the columns before are complete and those from there on are as they
were.  Every call is counted, and nothing else is.
-/

namespace Nonlinear

open Scalar

variable {α : Type} [Scalar α] {n : Nat}

namespace DifferenceSweep

/-- A residual whose values `F` do not depend on what its buffer held. -/
def Overwrites (f : VectorFunction α n) (F : Nat → Vector α n → Vector α n) : Prop :=
  ∀ k x buffer, (f k x buffer).error = none → (f k x buffer).contents = F k x

/-- Column `j` of a sweep is done: the residual was evaluated with the coordinate moved, its values
were finite, and the entries are their difference quotients. -/
structure Completes (F : Nat → Vector α n → Vector α n) (step : DifferenceStep α)
    (x fx : Vector α n) (sweep : DifferenceSweep α n n n) (j : Fin n) : Prop where
  taken : step.Taken x j
  called : sweep.calls[j.val]? = some ⟨step.moved x j, ⟨F (j + 1) (step.moved x j), none⟩⟩
  finite : (F (j + 1) (step.moved x j)).all isFinite = true
  filled : ∀ i, sweep.jacobian.entry i j =
    ((F (j + 1) (step.moved x j)).get i - fx.get i) / step.distance x j

/-- A sweep fails at column `j`, after some number of calls: before its call or because of it. -/
inductive Stops (step : DifferenceStep α) (x : Vector α n) (sweep : DifferenceSweep α n n n)
    (j : Fin n) : (calls : Nat) → Prop
  | refused : ¬ step.Taken x j →
      sweep.outcome = .error (.input (.step (step.size (x.get j)))) → Stops step x sweep j j
  | spoiled {call : VectorCall α n} {fault : Fault α} : step.Taken x j →
      sweep.calls[j.val]? = some call → call.Spoils j fault →
      sweep.outcome = .error (.evaluation fault) → Stops step x sweep j (j + 1)

variable {f : VectorFunction α n} {F : Nat → Vector α n → Vector α n} {step : DifferenceStep α}
  {x fx : Vector α n} {jacobian : DenseMatrix α n n} {counters : Counters}

theorem fill_completes (overwrites : Overwrites f F) {j : Fin n} {call : VectorCall α n}
    (called : (fill f step x fx jacobian counters).calls[j.val]? = some call)
    (usable : call.Usable) : Completes F step x fx (fill f step x fx jacobian counters) j := by
  obtain ⟨j', buffer, same, taken, rfl⟩ := fill_call called
  obtain rfl := Fin.ext same
  have written := overwrites _ _ _ usable.1
  have answer : f (j' + 1) (step.moved x j') buffer = ⟨F (j' + 1) (step.moved x j'), none⟩ := by
    rw [← written, ← usable.1]
  have filled :=
    columns_filled (List.nodup_finRange n) (getElem?_finRange_iff.mpr rfl) called usable
  rw [answer] at called usable
  simp only [answer] at filled
  exact ⟨taken, called, usable.2, filled⟩

theorem fill_untouched {j : Fin n}
    (h : ∀ call, (fill f step x fx jacobian counters).calls[j.val]? = some call → ¬ call.Usable)
    (i : Fin n) :
    (fill f step x fx jacobian counters).jacobian.entry i j = jacobian.entry i j := by
  refine columns_frame i fun l call at_l called => h call ?_
  rw [getElem?_finRange_iff.mp at_l]
  exact called

theorem fill?_square (f : VectorFunction α n) (step : DifferenceStep α) (x fx : Vector α n)
    (jacobian : DenseMatrix α n n) (counters : Counters) :
    fill? f step x fx jacobian counters = fill f step x fx jacobian counters := by
  simp [fill?]

theorem fill?_mismatch {k r c : Nat} (f : VectorFunction α n) (step : DifferenceStep α)
    (x : Vector α n) (fx : Vector α k) (jacobian : DenseMatrix α r c) (counters : Counters)
    (wrong : ¬ (k = n ∧ r = n ∧ c = n)) :
    fill? f step x fx jacobian counters =
      ⟨jacobian, counters, [], .error (.dimension n (if k = n then max r c else k))⟩ := by
  unfold fill?
  by_cases hk : k = n
  · rw [dif_pos hk, if_pos hk]
    by_cases hr : r = n
    · rw [dif_pos hr, dif_neg fun hc => wrong ⟨hk, hr, hc⟩]
    · rw [dif_neg hr]
  · rw [dif_neg hk, if_neg hk]

/-- A whole sweep completes all columns, or those before the first that fails. -/
theorem fill_stops (overwrites : Overwrites f F) :
    let sweep := fill f step x fx jacobian counters
    sweep.outcome = .ok () ∧ sweep.calls.length = n ∧ (∀ j, Completes F step x fx sweep j) ∨
      ∃ j, Stops step x sweep j sweep.calls.length ∧
        (∀ l < j, Completes F step x fx sweep l) ∧
        ∀ l ≥ j, ∀ i, sweep.jacobian.entry i l = jacobian.entry i l := by
  intro sweep
  have ends : Ends step x (List.finRange n) sweep.calls sweep.outcome := fill_ends ..
  generalize said : sweep.outcome = outcome at ends
  cases ends with
  | complete all usable =>
      rw [List.length_finRange] at all
      refine .inl ⟨rfl, all, fun j => ?_⟩
      have within : j.val < sweep.calls.length := j.isLt.trans_eq all.symm
      exact fill_completes overwrites (List.getElem?_eq_getElem within)
        (usable _ (List.getElem_mem within))
  | @refused j at_end usable refused =>
      have here : j.val = sweep.calls.length := getElem?_finRange_iff.mp at_end
      refine .inr ⟨j, here ▸ .refused refused said, fun l before => ?_, fun l after => ?_⟩
      · have within : l.val < sweep.calls.length := here ▸ before
        exact fill_completes overwrites (List.getElem?_eq_getElem within)
          (usable _ (List.getElem_mem within))
      · refine fill_untouched fun call called => ?_
        have within : l.val < sweep.calls.length := (List.getElem?_eq_some_iff.mp called).1
        exact absurd (here ▸ within) (Nat.not_lt_of_le after)
  | @spoiled j before call fault last at_end usable spoils =>
      have here : j.val = before.length := getElem?_finRange_iff.mp at_end
      have length : sweep.calls.length = j + 1 := by
        rw [last, List.length_append, List.length_singleton, here]
      have called : sweep.calls[j.val]? = some call := by
        rw [last, here, List.getElem?_concat_length]
      obtain ⟨j', _, same, taken, -⟩ := fill_call called
      obtain rfl := Fin.ext same
      refine .inr ⟨j', length ▸ .spoiled taken called spoils said, fun l earlier => ?_,
        fun l after => ?_⟩
      · have within : l.val < before.length := here ▸ earlier
        have called : sweep.calls[l.val]? = some before[l.val] := by
          rw [last, List.getElem?_append_left within, List.getElem?_eq_getElem within]
        exact fill_completes overwrites called (usable _ (List.getElem_mem within))
      · refine fill_untouched fun call' called' => ?_
        have within : l.val < sweep.calls.length := (List.getElem?_eq_some_iff.mp called').1
        obtain rfl : l = j' := by
          have : j'.val ≤ l.val := after
          exact Fin.ext (by omega)
        obtain rfl := Option.some.inj (called.symm.trans called')
        exact spoils.not_usable

/-- An estimate calls the residual with one coordinate after another moved and counts these calls.
Either all columns are done, or those before the first that fails, and the others are as they were.
A vector or a matrix of a wrong size is reported at once. -/
theorem estimate_frame (overwrites : Overwrites f F) (step : DifferenceStep α)
    (x fx : Vector α n) (jacobian : DenseMatrix α n n) (counters : Counters) :
    let sweep := fill? f step x fx jacobian counters
    (∀ l call, sweep.calls[l]? = some call → ∃ j : Fin n, j.val = l ∧
      (∃ buffer, call.answer = f (l + 1) call.point buffer) ∧
      ∀ i, call.point.get i = if i = j then x.get j + step.size (x.get j) else x.get i) ∧
    sweep.counters = { counters with
      functionEvaluations := counters.functionEvaluations + sweep.calls.length } ∧
    (sweep.outcome = .ok () ∧ sweep.calls.length = n ∧ (∀ j, Completes F step x fx sweep j) ∨
      ∃ j, Stops step x sweep j sweep.calls.length ∧
        (∀ l < j, Completes F step x fx sweep l) ∧
        ∀ l ≥ j, ∀ i, sweep.jacobian.entry i l = jacobian.entry i l) ∧
    ∀ (k r c : Nat) (fx : Vector α k) (a : DenseMatrix α r c), ¬ (k = n ∧ r = n ∧ c = n) →
      fill? f step x fx a counters =
        ⟨a, counters, [], .error (.dimension n (if k = n then max r c else k))⟩ := by
  rw [fill?_square]
  refine ⟨?_, fill_counters .., fill_stops overwrites,
    fun k r c fx a => fill?_mismatch f step x fx a counters⟩
  intro l call called
  obtain ⟨j, buffer, at_l, -, rfl⟩ := fill_call called
  exact ⟨j, at_l, ⟨buffer, rfl⟩, step.get_moved x j⟩

/-- A residual that reports an error once its second variable is moved: the first column is done,
and two calls are counted. -/
theorem estimate_frame_broken_off :
    let f : VectorFunction ℚ 3 := fun _ x buffer =>
      if 1 / 4 < x[1] then ⟨buffer, some ⟨"out of range"⟩⟩
      else ⟨#v[x[0] * x[1], x[0] + x[2], x[2] * x[2]], none⟩
    let F : Nat → Vector ℚ 3 → Vector ℚ 3 := fun _ x => #v[x[0] * x[1], x[0] + x[2], x[2] * x[2]]
    let sweep := fill? f (.absolute (1 / 2)) #v[1, 0, 2] #v[0, 3, 4] (DenseMatrix.replicate 7) {}
    Overwrites f F ∧ sweep.counters = ⟨0, 2, 0⟩ ∧
      sweep.jacobian = #v[#v[0, 7, 7], #v[1, 7, 7], #v[0, 7, 7]] ∧
      ∃ j, Stops (.absolute (1 / 2)) #v[1, 0, 2] sweep j 2 ∧
        ∀ l < j, Completes F (.absolute (1 / 2)) #v[1, 0, 2] #v[0, 3, 4] sweep l := by
  intro f F sweep
  have overwrites : Overwrites f F := by
    intro k x buffer answered
    dsimp only [f] at answered ⊢
    split at answered
    · cases answered
    · rw [if_neg ‹_›]
  have two : sweep.calls.length = 2 := by decide +kernel
  obtain ⟨-, -, complete | ⟨j, stops, before, -⟩, -⟩ := estimate_frame overwrites
    (.absolute (1 / 2)) #v[1, 0, 2] #v[0, 3, 4] (DenseMatrix.replicate 7) {}
  · exact absurd (two.symm.trans complete.2.1) (by decide)
  · exact ⟨overwrites, by decide +kernel, by decide +kernel, j, two ▸ stops, before⟩

end DifferenceSweep

end Nonlinear
