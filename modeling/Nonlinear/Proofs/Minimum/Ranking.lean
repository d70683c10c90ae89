import Mathlib
import Nonlinear.Proofs.Loop.Continuation
import Nonlinear.Proofs.Minimum.Containment
import Nonlinear.Proofs.Minimum.Rounded

/-! # The samples that a minimum search keeps

Of all samples taken the best one is a least one, and of those the last.  The other two follow, but
not in order: right after a first trial that is worse the third one still is the best sample, and so
it is below the second.  Where no trial is at the best sample, the second one is the runner-up.
-/

namespace Nonlinear.Minimum

open Scalar SearchEntry

variable {α : Type} [Scalar α]

section Definitions

/-- No sample taken has a smaller value, and none that was taken later the same. -/
def LastLeast (p : Sample α) (taken : List (Sample α)) : Prop :=
  ∃ earlier later, taken = earlier ++ p :: later ∧
    (∀ q ∈ earlier, p.y ≤ q.y) ∧ ∀ q ∈ later, p.y < q.y

def FiniteValues (taken : List (Sample α)) : Prop := ∀ p ∈ taken, isFinite p.y = true

/-- How the three samples of an interval rank among those taken. -/
structure Ranks (taken : List (Sample α)) (s : Interval α) : Prop where
  finite : FiniteValues taken
  best : LastLeast s.best taken
  second_mem : s.second ∈ taken
  third_mem : s.third ∈ taken
  second_ge : s.best.y ≤ s.second.y
  third_ge : s.best.y ≤ s.third.y
  order : s.second.y ≤ s.third.y ∨ (s.third.x == s.best.x) = true

/-- The two best samples have the two least values, as often as these occur. -/
def RunnerUp (taken : List (Sample α)) (s : Interval α) : Prop :=
  ∃ rest, taken.Perm (s.best :: s.second :: rest) ∧ ∀ q ∈ rest, s.second.y ≤ q.y

variable (config : SearchConfig α) (f : ScalarFunction α) (a b : α)

/-- The samples of a search up to its `k`-th update. -/
def taken (k : Nat) : List (Sample α) := (samples (search config f a b).trace).take (k + 1)

/-- None of the first `k` trials is at the best sample of its time. -/
def TrialsApart (k : Nat) : Prop :=
  ∀ j < k, ∀ s, HoldsAfter config f a b j s → (s.target config == s.best.x) = false

/-- How a search ranks its samples, in its states and in its answer. -/
structure Ranked : Prop where
  ranks : ∀ k s, HoldsAfter config f a b k s →
    (taken config f a b k).length = k + 1 ∧ Ranks (taken config f a b k) s
  runnerUp : ∀ k s, HoldsAfter config f a b (k + 1) s → TrialsApart config f a b (k + 1) →
    RunnerUp (taken config f a b (k + 1)) s
  answer : ∀ r, (search config f a b).outcome = .ok r →
    LastLeast ⟨r.x, r.value⟩ (samples (search config f a b).trace) ∧
      ∀ x answer, .call x answer ∈ (search config f a b).trace →
        ∃ y, answer = .ok y ∧ r.value ≤ y

end Definitions

section Update

variable [LawfulScalar α] {taken : List (Sample α)} {s : Interval α} {p q : Sample α}

theorem FiniteValues.isNaN (finite : FiniteValues taken) (mem : p ∈ taken) : isNaN p.y = false :=
  LawfulScalar.isNaN_of_isFinite (finite p mem)

omit [LawfulScalar α] in
theorem FiniteValues.snoc (finite : FiniteValues taken) (hp : isFinite p.y = true) :
    FiniteValues (taken ++ [p]) := by
  intro q mem
  rcases List.mem_append.mp mem with earlier | new
  · exact finite q earlier
  · rw [List.mem_singleton.mp new]
    exact hp

namespace LastLeast

omit [LawfulScalar α] in
theorem single (p : Sample α) : LastLeast p [p] := ⟨[], [], rfl, by simp, by simp⟩

omit [LawfulScalar α] in
theorem mem (h : LastLeast p taken) : p ∈ taken := by
  obtain ⟨earlier, later, rfl, -, -⟩ := h
  simp

theorem le (h : LastLeast p taken) (finite : FiniteValues taken) (mem : q ∈ taken) : p.y ≤ q.y := by
  have number := finite.isNaN h.mem
  obtain ⟨earlier, later, rfl, before, after⟩ := h
  rcases List.mem_append.mp mem with first | rest
  · exact before q first
  · rcases List.mem_cons.mp rest with rfl | last
    · exact LawfulScalar.le_refl number
    · exact le_of_lt (after q last)

/-- A sample that is no worse takes the place of the best one. -/
theorem replace (h : LastLeast p taken) (finite : FiniteValues taken) (better : q.y ≤ p.y) :
    LastLeast q (taken ++ [q]) :=
  ⟨taken, [], rfl, fun _ mem => LawfulScalar.le_trans better (h.le finite mem), by simp⟩

omit [LawfulScalar α] in
theorem keep (h : LastLeast p taken) (worse : p.y < q.y) : LastLeast p (taken ++ [q]) := by
  obtain ⟨earlier, later, rfl, before, after⟩ := h
  refine ⟨earlier, later ++ [q], by simp, before, fun r mem => ?_⟩
  rcases List.mem_append.mp mem with old | new
  · exact after r old
  · rw [List.mem_singleton.mp new]
    exact worse

end LastLeast

namespace Ranks

theorem of_mem {u v : Sample α} (second : s.second = u) (third : s.third = v)
    (finite : FiniteValues taken) (best : LastLeast s.best taken) (hu : u ∈ taken) (hv : v ∈ taken)
    (order : u.y ≤ v.y ∨ (v.x == s.best.x) = true) : Ranks taken s := by
  subst second third
  exact ⟨finite, best, hu, hv, best.le finite hu, best.le finite hv, order⟩

theorem around (a b : α) (hp : isFinite p.y = true) : Ranks [p] (.around a b p) := by
  have finite : FiniteValues [p] := by simpa [FiniteValues] using hp
  exact .of_mem rfl rfl finite (.single p) List.mem_cons_self List.mem_cons_self
    (.inl (LawfulScalar.le_refl (LawfulScalar.isNaN_of_isFinite hp)))

theorem lt_of_not_le (h : Ranks taken s) (mem : q ∈ taken) (hp : isFinite p.y = true)
    (worse : ¬ p.y ≤ q.y) : q.y < p.y :=
  Scalar.lt_of_not_le (h.finite.isNaN mem) (LawfulScalar.isNaN_of_isFinite hp) worse

theorem update (h : Ranks taken s) (hp : isFinite p.y = true) :
    Ranks (taken ++ [p]) (s.update p) := by
  have finite := h.finite.snoc hp
  have new : p ∈ taken ++ [p] := by simp
  have old {q : Sample α} (mem : q ∈ taken) : q ∈ taken ++ [p] := List.mem_append_left _ mem
  by_cases better : p.y ≤ s.best.y
  · rw [Interval.update_of_le better]
    exact .of_mem rfl rfl finite (h.best.replace h.finite better) (old h.best.mem)
      (old h.second_mem) (.inl h.second_ge)
  · obtain ⟨-, -, best⟩ := Interval.update_of_not_le better
    have least : LastLeast (s.update p).best (taken ++ [p]) := by
      rw [best]
      exact h.best.keep (h.lt_of_not_le h.best.mem hp better)
    rcases Interval.update_others better with
      ⟨passes, second, third⟩ | ⟨behind, second, third | third⟩
    · exact .of_mem second third finite least new (old h.second_mem) (best ▸ passes)
    · exact .of_mem second third finite least (old h.second_mem) new
        (.inl (le_of_lt (h.lt_of_not_le h.second_mem hp (not_or.mp behind).1)))
    · exact .of_mem second third finite least (old h.second_mem) (old h.third_mem)
        (best ▸ h.order)

end Ranks

/-- What an interval knows of its second sample: before the first update it is the best one, and
then it is the runner-up and at another point. -/
inductive Seconds (taken : List (Sample α)) (s : Interval α) : Prop where
  | first : taken = [s.best] → s.second = s.best → isNaN s.best.x = false → Seconds taken s
  | later : RunnerUp taken s → (s.second.x == s.best.x) = false → Seconds taken s

omit [LawfulScalar α] in
theorem RunnerUp.of_perm (second : s.second = p) (rest : List (Sample α))
    (perm : taken.Perm (s.best :: p :: rest)) (least : ∀ q ∈ rest, p.y ≤ q.y) :
    RunnerUp taken s := by
  subst second
  exact ⟨rest, perm, least⟩

/-- A trial away from the best sample leaves the second one the runner-up, and away from the best
one. -/
theorem Seconds.update (seconds : Seconds taken s) (h : Ranks taken s)
    (hp : isFinite p.y = true) (apart : (p.x == s.best.x) = false) :
    RunnerUp (taken ++ [p]) (s.update p) ∧
      ((s.update p).second.x == (s.update p).best.x) = false := by
  have snoc : (taken ++ [p]).Perm (p :: taken) := List.perm_append_singleton p taken
  by_cases better : p.y ≤ s.best.y
  · rw [Interval.update_of_le better]
    refine ⟨?_, (beq_comm _ _).trans apart⟩
    cases seconds with
    | first single _ _ =>
        rw [single] at snoc ⊢
        exact ⟨[], snoc, by simp⟩
    | later runnerUp _ =>
        obtain ⟨rest, perm, -⟩ := runnerUp
        refine ⟨s.second :: rest, snoc.trans (perm.cons p), fun q mem => ?_⟩
        exact h.best.le h.finite (perm.mem_iff.mpr (List.mem_cons_of_mem _ mem))
  · obtain ⟨-, -, best⟩ := Interval.update_of_not_le better
    rcases Interval.update_others better with ⟨passes, second, -⟩ | ⟨behind, second, -⟩
    · rw [second, best]
      refine ⟨?_, apart⟩
      cases seconds with
      | first single _ _ =>
          refine .of_perm second [] ?_ (by simp)
          rw [single, best]
          exact .refl _
      | later runnerUp other =>
          obtain ⟨rest, perm, least⟩ := runnerUp
          have passes : p.y ≤ s.second.y := passes.resolve_right (by simp [other])
          refine .of_perm second (s.second :: rest) ?_ ?_
          · rw [best]
            exact (snoc.trans (perm.cons p)).trans (.swap ..)
          · exact List.forall_mem_cons.mpr
              ⟨passes, fun q mem => LawfulScalar.le_trans passes (least q mem)⟩
    · rw [second, best]
      cases seconds with
      | first _ same number =>
          refine absurd (.inr ?_) behind
          rw [same]
          exact LawfulScalar.beq_iff.mpr
            ⟨LawfulScalar.le_refl number, LawfulScalar.le_refl number⟩
      | later runnerUp other =>
          obtain ⟨rest, perm, least⟩ := runnerUp
          refine ⟨.of_perm second (p :: rest) ?_ ?_, other⟩
          · rw [best]
            exact (snoc.trans (perm.cons p)).trans
              ((List.Perm.swap ..).trans ((List.Perm.swap ..).cons _))
          · exact List.forall_mem_cons.mpr
              ⟨le_of_lt (h.lt_of_not_le h.second_mem hp (not_or.mp behind).1), least⟩

end Update

section Course

variable [LawfulScalar α] {config : SearchConfig α} {f : ScalarFunction α} {a b : α} {k : Nat}
  {trace : List (SearchEntry α (Event α))} {t : Interval α × Counters}

/-- Every call on the way to an interval gave a sample: one at the entry, and one an iteration. -/
def Accounted (k : Nat) (trace : List (SearchEntry α (Event α))) : Prop :=
  (samples trace).length = k + 1 ∧ ∀ x answer, .call x answer ∈ trace → ∃ y, answer = .ok y

omit [LawfulScalar α] in
theorem Reaches.accounted (h : Reaches config f a b k trace t) : Accounted k trace := by
  refine Scheme.Reaches.history (P := fun k trace _ => Accounted k trace) ?_ ?_ h
  · rintro _ _ ⟨p, opens, rfl, rfl⟩
    rw [openingTrace, opens.first.answer]
    refine ⟨rfl, fun x answer mem => ?_⟩
    cases List.mem_singleton.mp mem
    exact ⟨_, rfl⟩
  · rintro k trace s p event - ⟨length, answered⟩ - -
    refine ⟨?_, fun x answer mem => ?_⟩
    · rw [samples_append, List.length_append, length]
      rfl
    · rcases List.mem_append.mp mem with earlier | new
      · exact answered x answer earlier
      · rcases List.mem_cons.mp new with call | event
        · cases call
          exact ⟨_, rfl⟩
        · cases List.mem_singleton.mp event

omit [LawfulScalar α] in
theorem Reaches.samples_eq (h : Reaches config f a b k trace t) :
    samples trace = taken config f a b k := by
  rw [taken, ← h.accounted.1]
  exact List.prefix_iff_eq_take.mp (samples_mono h.trace_prefix)

theorem Reaches.ranks (h : Reaches config f a b k trace t) : Ranks (samples trace) t.1 := by
  refine Scheme.Reaches.history (P := fun _ trace s => Ranks (samples trace) s) ?_ ?_ h
  · rintro _ _ ⟨p, opens, rfl, rfl⟩
    rw [openingTrace, opens.first.answer, ← opens.first.at_point]
    exact .around _ _ opens.first.finite
  · intro k trace s p event _ ranks _ gives
    rw [samples_append]
    exact ranks.update gives.finite

theorem Reaches.seconds (entered : isFinite a = true → isFinite b = true →
      isNaN (entry a b) = false)
    (h : Reaches config f a b k trace t) (apart : TrialsApart config f a b k) :
    Seconds (samples trace) t.1 := by
  refine Scheme.Reaches.history
    (P := fun k trace s => TrialsApart config f a b k → Seconds (samples trace) s) ?_ ?_ h apart
  · rintro _ _ ⟨p, opens, rfl, rfl⟩ -
    rw [openingTrace, opens.first.answer, ← opens.first.at_point]
    refine .first rfl rfl ?_
    show isNaN p.x = false
    rw [opens.first.at_point]
    exact entered opens.finite_left opens.finite_right
  · intro k trace s p event reaches seconds _ gives apart
    have away : (p.x == s.1.best.x) = false := by
      rw [gives.at_point]
      exact apart k (Nat.lt_succ_self k) s.1 ⟨trace, s, reaches, rfl⟩
    have earlier : TrialsApart config f a b k := fun j lt => apart j (Nat.lt_succ_of_lt lt)
    obtain ⟨runnerUp, other⟩ :=
      (seconds earlier).update (Reaches.ranks reaches) gives.finite away
    rw [samples_append]
    exact .later runnerUp other

omit [LawfulScalar α] in
/-- A search that comes to a settled interval ends there. -/
theorem Reaches.search_of_settled (h : Reaches config f a b k trace t)
    (settled : t.1.settled config) : search config f a b =
      (((scheme config).loop f config.maxIterations).finish t).after trace := by
  obtain ⟨_, _, inner, ⟨p, opens, rfl, rfl⟩, le, leads, rfl⟩ := h
  rw [opens.search_eq, Loop.run_of_finished leads settled le, Run.after_after]

theorem ranked (entered : isFinite a = true → isFinite b = true → isNaN (entry a b) = false) :
    Ranked config f a b := by
  constructor
  · rintro k _ ⟨trace, t, reaches, rfl⟩
    rw [← reaches.samples_eq]
    exact ⟨reaches.accounted.1, reaches.ranks⟩
  · rintro k _ ⟨trace, t, reaches, rfl⟩ apart
    have length := reaches.accounted.1
    rw [← reaches.samples_eq]
    cases reaches.seconds entered apart with
    | later runnerUp _ => exact runnerUp
    | first single _ _ =>
        rw [single] at length
        cases length
  · intro r ok
    obtain ⟨p, opens⟩ := opens_of_ok ok
    obtain ⟨k, trace, t, reaches, settled, x, value⟩ :=
      Scheme.reaches_of_ok opens.search_eq opens.starts ok
    have ranks : Ranks (samples trace) t.1 := Reaches.ranks reaches
    have whole : (search config f a b).trace =
        trace ++ [.event (Event.converged t.1.best.x t.1.best.y t.2)] := by
      rw [Reaches.search_of_settled reaches settled]
      rfl
    have best : (⟨r.x, r.value⟩ : Sample α) = t.1.best := by
      rw [x, value]
      rfl
    rw [best, value, whole, samples_append]
    refine ⟨?_, fun x answer mem => ?_⟩
    · rw [samples_event, samples_nil, List.append_nil]
      exact ranks.best
    · have call : .call x answer ∈ trace := (List.mem_append.mp mem).resolve_right (by simp)
      obtain ⟨y, rfl⟩ := (Reaches.accounted reaches).2 x answer call
      exact ⟨y, rfl, ranks.best.le (q := ⟨x, y⟩) ranks.finite (mem_samples.mpr call)⟩

end Course

/-- The entry of a search between finite numbers may overflow, but it is a number. -/
theorem isNaN_entry [BinaryScalar α] [BinaryConstants α] {a b : α} (ha : isFinite a = true)
    (hb : isFinite b = true) : isNaN (entry a b) = false := by
  have ordered (x y : α) (hx : isFinite x = true) (hy : isFinite y = true) :
      isNaN (x + golden * (y - x)) = false := by
    refine BinaryScalar.isNaN_add_of_finite hx ?_
    rcases BinaryScalar.finite_or_infinite (BinaryScalar.sub_rounded hy hx).isNaN with
      finite | infinite
    · exact (BinaryScalar.mul_rounded BinaryConstants.isFinite_golden finite).isNaN
    · obtain ⟨s, same⟩ := BinaryScalar.infinite_iff.mp infinite
      have pos : 0 < BinaryScalar.real (golden : α) := by
        linarith [BinaryConstants.golden_ge (α := α)]
      exact (BinaryScalar.infinite_iff.mpr ⟨s, (infinite.mul_pos_right pos).trans same⟩).isNaN
  unfold entry
  rcases ends_spec ha hb with ⟨eq, -⟩ | ⟨eq, -⟩ <;> rw [eq]
  · exact ordered a b ha hb
  · exact ordered b a hb ha

section Exact

variable {K : Type} [Field K] [LinearOrder K] [ExactConstants K] [IsStrictOrderedRing K]

/-- Without rounding a trial is never at the best sample. -/
theorem trialsApart (config : SearchConfig K) (f : ScalarFunction K) (a b : K) {k : Nat}
    {s : Interval K} (h : HoldsAfter config f a b k s) : TrialsApart config f a b k := by
  obtain ⟨trace, t, reaches, -⟩ := h
  refine Scheme.Reaches.history (P := fun k _ _ => TrialsApart config f a b k) ?_ ?_ reaches
  · intro _ _ _ j lt
    exact absurd lt (Nat.not_lt_zero j)
  · rintro k trace s p event reaches apart unsettled - j lt _ ⟨trace', u, reaches', rfl⟩
    rcases Nat.lt_succ_iff_lt_or_eq.mp lt with lt | rfl
    · exact apart j lt _ ⟨trace', u, reaches', rfl⟩
    · obtain rfl : s = u := Reaches.unique reaches reaches'
      refine Bool.eq_false_iff.mpr fun same => ?_
      exact (Reaches.trial reaches unsettled).2 (beq_exact_iff.mp same)

end Exact

/-- In rounded and in exact arithmetic the best sample of a search is a least one of those taken so
far, and the last of these.  The other two were taken, are no better, and are in order unless the
third one is at the best.  From the first update on the second one is the runner-up if no trial was
at the best sample, and without rounding none is.  The answer is the best of all samples. -/
theorem search_ranks (α : Type) [Scalar α] [BinaryScalar α] [BinaryConstants α]
    (K : Type) [Field K] [LinearOrder K] [ExactConstants K] [IsStrictOrderedRing K] :
    (∀ (config : SearchConfig α) (f : ScalarFunction α) (a b : α), Ranked config f a b) ∧
      ∀ (config : SearchConfig K) (f : ScalarFunction K) (a b : K), Ranked config f a b ∧
        ∀ k s, HoldsAfter config f a b k s → TrialsApart config f a b k := by
  constructor
  · intro config f a b
    exact ranked isNaN_entry
  · intro config f a b
    exact ⟨ranked fun _ _ => rfl, fun _ _ after => trialsApart config f a b after⟩

/-- The first trial of this search is worse than its entry.  So its second sample is the worse one
of the other two, and the runner-up all the same. -/
theorem search_ranks_square :
    (∃ r, (search ⟨0.5, 0.0, 20, false⟩ (fun _ (x : Float32) => .ok ((x - 1.0) * (x - 1.0)))
        3.0 (-1.0)).outcome = .ok r ∧
      LastLeast ⟨r.x, r.value⟩ (samples (search ⟨0.5, 0.0, 20, false⟩
        (fun _ (x : Float32) => .ok ((x - 1.0) * (x - 1.0))) 3.0 (-1.0)).trace)) ∧
    ∃ s, HoldsAfter ⟨1 / 10, 0, 20, false⟩ (fun _ (x : ℚ) => .ok (x * x)) (-1) 2 1 s ∧
      s.third.y < s.second.y ∧
      RunnerUp (taken ⟨1 / 10, 0, 20, false⟩ (fun _ (x : ℚ) => .ok (x * x)) (-1) 2 1) s := by
  obtain ⟨rounded, unrounded⟩ := search_ranks Float32 ℚ
  constructor
  · have succeeds : ((search ⟨0.5, 0.0, 20, false⟩
        (fun _ (x : Float32) => .ok ((x - 1.0) * (x - 1.0))) 3.0 (-1.0)).outcome.toOption.any
          fun _ => true) = true := by decide +kernel
    obtain ⟨r, found, -⟩ := (Option.any_eq_true _ _).mp succeeds
    have ok := Run.ok_of_toOption found
    exact ⟨r, ok, ((rounded _ _ _ _).answer r ok).1⟩
  · let f : ScalarFunction ℚ := fun _ x => .ok (x * x)
    let p : Sample ℚ := ⟨entry (-1) 2, entry (-1) 2 * entry (-1) 2⟩
    have opens : Opens ⟨1 / 10, 0, 20, false⟩ f (-1) 2 p :=
      ⟨rfl, rfl, by decide +kernel, by decide +kernel, ⟨rfl, rfl, rfl⟩⟩
    let loop := (scheme ⟨(1 / 10 : ℚ), 0, 20, false⟩).loop f 20
    have worse : (loop.stateAfter 1 (opening (-1) 2 p)).any
        (fun t => t.1.third.y < t.1.second.y) = true := by decide +kernel
    obtain ⟨t, at_t, worse⟩ := (Option.any_eq_true _ _).mp worse
    obtain ⟨_, reaches⟩ :=
      Scheme.reaches_of_stateAfter opens.starts (by decide : 1 ≤ 20) at_t
    have after : HoldsAfter ⟨1 / 10, 0, 20, false⟩ f (-1) 2 1 t.1 := ⟨_, t, reaches, rfl⟩
    obtain ⟨ranked, apart⟩ := unrounded ⟨1 / 10, 0, 20, false⟩ f (-1) 2
    exact ⟨t.1, after, of_decide_eq_true worse, ranked.runnerUp 0 _ after (apart 1 _ after)⟩

end Nonlinear.Minimum
