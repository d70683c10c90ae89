import Nonlinear.Minimum.Search
import Nonlinear.Proofs.Search.Course

/-! # The course of a minimum search

A minimum search takes one sample inside its interval and then goes on with intervals.  Here is
what one iteration does, how the search begins, and through which intervals it passes.
-/

namespace Nonlinear.Minimum

open Scalar

variable {α : Type} [Scalar α]

namespace Interval

/-- The resolution at the best sample under a configuration. -/
def accuracy (config : SearchConfig α) (s : Interval α) : α :=
  s.resolution (config.tolerance / 3.0)

/-- The step from the best sample, proposed at the head of an iteration. -/
def move (config : SearchConfig α) (s : Interval α) : Step × α :=
  s.propose (s.accuracy config) config.bisectionOnly

/-- The point that an iteration asks for. -/
def target (config : SearchConfig α) (s : Interval α) : α :=
  s.best.x + lengthen (s.accuracy config) (s.move config).2

def settled (config : SearchConfig α) (s : Interval α) : Prop :=
  s.converged (s.accuracy config)

instance (config : SearchConfig α) (s : Interval α) : Decidable (s.settled config) := by
  unfold settled; infer_instance

theorem nextStep_eq_parabolic_iff {s : Interval α} {golden r step : α} :
    s.nextStep golden r = (.parabolic, step) ↔
      ¬ magnitude (s.best.x - s.second.x) < r ∧ s.parabolicStep golden r = some step := by
  unfold nextStep
  split
  · rename_i near
    exact iff_of_false nofun fun apart => apart.1 near
  · rename_i apart
    cases s.parabolicStep golden r with
    | none => exact iff_of_false nofun nofun
    | some _ =>
        rw [and_iff_right apart, Option.some_inj, Prod.mk.injEq]
        exact and_iff_right rfl

theorem nextStep_cases (s : Interval α) (golden r : α) :
    s.nextStep golden r = (.goldenSection, golden) ∨
      ∃ step, s.nextStep golden r = (.parabolic, step) := by
  unfold nextStep
  split
  · exact .inl rfl
  · cases s.parabolicStep golden r with
    | none => exact .inl rfl
    | some step => exact .inr ⟨step, rfl⟩

theorem move_cases (config : SearchConfig α) (s : Interval α) :
    s.move config = (.goldenSection, s.goldenStep) ∨
      (s.move config).1 = .parabolic ∧
        s.parabolicStep s.goldenStep (s.accuracy config) = some (s.move config).2 := by
  unfold move propose
  split
  · exact .inl rfl
  · rcases s.nextStep_cases s.goldenStep (s.accuracy config) with golden | ⟨step, parabolic⟩
    · exact .inl golden
    · rw [parabolic]
      exact .inr ⟨rfl, (nextStep_eq_parabolic_iff.mp parabolic).2⟩

theorem move_of_goldenOnly {config : SearchConfig α} (only : config.bisectionOnly = true)
    (s : Interval α) : s.move config = (.goldenSection, s.goldenStep) :=
  if_pos only

theorem update_of_le {s : Interval α} {p : Sample α} (h : p.y ≤ s.best.y) :
    s.update p =
      { a := if p.x < s.best.x then s.a else s.best.x
        b := if p.x < s.best.x then s.best.x else s.b
        best := p
        second := s.best
        third := s.second } :=
  if_pos h

/-- Whatever becomes of the other samples, a worse trial only replaces an end. -/
theorem update_of_not_le {s : Interval α} {p : Sample α} (h : ¬ p.y ≤ s.best.y) :
    (s.update p).a = (if p.x < s.best.x then p.x else s.a) ∧
      (s.update p).b = (if p.x < s.best.x then s.b else p.x) ∧ (s.update p).best = s.best := by
  rw [update, if_neg h]
  dsimp only
  split
  · exact ⟨rfl, rfl, rfl⟩
  · split
    · exact ⟨rfl, rfl, rfl⟩
    · exact ⟨rfl, rfl, rfl⟩

/-- A worse trial becomes the second sample, or leaves that one where it is. -/
theorem update_others {s : Interval α} {p : Sample α} (h : ¬ p.y ≤ s.best.y) :
    ((p.y ≤ s.second.y ∨ (s.second.x == s.best.x) = true) ∧
      (s.update p).second = p ∧ (s.update p).third = s.second) ∨
    (¬ (p.y ≤ s.second.y ∨ (s.second.x == s.best.x) = true) ∧
      (s.update p).second = s.second ∧
        ((s.update p).third = p ∨ (s.update p).third = s.third)) := by
  rw [update, if_neg h]
  dsimp only
  split
  · exact .inl ⟨‹_›, rfl, rfl⟩
  · right
    split
    · exact ⟨‹_›, rfl, .inl rfl⟩
    · exact ⟨‹_›, rfl, .inr rfl⟩

end Interval

/-- A minimum search goes on with intervals. -/
def scheme (config : SearchConfig α) : Scheme α (Event α) (Interval α) where
  settled := Interval.settled config
  target := Interval.target config
  update := Interval.update
  answer s := s.best
  stepped s iteration p := .step iteration p.x p.y (s.move config).1
  converged p counters := .converged p.x p.y counters
  limit iterations p := .limit iterations p.x

theorem iterate_eq_run (config : SearchConfig α) (f : ScalarFunction α) (n : Nat)
    (s : Interval α) (counters : Counters) :
    iterate config f n s counters =
      ((scheme config).loop f config.maxIterations).run n (s, counters) := by
  induction n generalizing s counters with
  | zero => rfl
  | succ n ih =>
      rw [iterate, Loop.run]
      show (if s.settled config then _ else _) = if s.settled config then _ else _
      congr 1
      simp only [Run.bind_eq, Scheme.loop, Run.bind_assoc]
      congr 1
      funext p
      show (Run.note _).bind _ = _
      rw [Run.note_bind, ih]
      rfl

/-- The ends of an interval in order. -/
def ends (a b : α) : α × α := if a < b then (a, b) else (b, a)

/-- The point of the first call. -/
def entry (a b : α) : α := (ends a b).1 + golden * ((ends a b).2 - (ends a b).1)

/-- A search that has its first sample. -/
structure Opens (config : SearchConfig α) (f : ScalarFunction α) (a b : α) (p : Sample α) :
    Prop where
  finite_left : isFinite a = true
  finite_right : isFinite b = true
  distinct : (a == b) = false
  valid : config.validate = .ok ()
  first : f.Gives 1 (entry a b) p

/-- The first call. -/
def openingTrace (f : ScalarFunction α) (a b : α) : List (SearchEntry α (Event α)) :=
  [.call (entry a b) (f 1 (entry a b))]

/-- The state in which the loop of a search starts. -/
def opening (a b : α) (p : Sample α) : Interval α × Counters :=
  (.around (ends a b).1 (ends a b).2 p, { functionEvaluations := 1 })

variable {config : SearchConfig α} {f : ScalarFunction α} {a b : α} {p : Sample α}

/-- What a search asks of its input before the first call. -/
structure Admits (config : SearchConfig α) (a b : α) : Prop where
  finite_left : isFinite a = true
  finite_right : isFinite b = true
  distinct : (a == b) = false
  valid : config.validate = .ok ()

theorem not_admits_iff : ¬ Admits config a b ↔
    isFinite a = false ∨ isFinite b = false ∨ (a == b) = true ∨ config.validate ≠ .ok () := by
  have parts : Admits config a b ↔ isFinite a = true ∧ isFinite b = true ∧
      (a == b) = false ∧ config.validate = .ok () :=
    ⟨fun h => ⟨h.1, h.2, h.3, h.4⟩, fun h => ⟨h.1, h.2.1, h.2.2.1, h.2.2.2⟩⟩
  rw [parts, Classical.not_and_iff_not_or_not, Classical.not_and_iff_not_or_not,
    Classical.not_and_iff_not_or_not, Bool.not_eq_true, Bool.not_eq_true, Bool.not_eq_false]

theorem Admits.congr {other : SearchConfig α} (h : Admits config a b)
    (same : other.validate = config.validate) : Admits other a b :=
  ⟨h.finite_left, h.finite_right, h.distinct, same.trans h.valid⟩

/-- A search that accepts its input asks for its entry and goes on from there. -/
theorem Admits.search_eq (h : Admits config a b) :
    search config f a b = (f.sample 1 (entry a b)).bind fun p =>
      ((scheme config).loop f config.maxIterations).run config.maxIterations (opening a b p) := by
  have inside : ¬ (¬ isFinite a = true ∨ ¬ isFinite b = true ∨ (a == b) = true) := by
    simp [h.finite_left, h.finite_right, h.distinct]
  rw [search, if_neg inside, h.valid]
  simp only [Run.bind_eq, iterate_eq_run]
  rfl

/-- A search that rejects its input does nothing else, whatever its function is. -/
theorem search_of_not_admits (h : ¬ Admits config a b) :
    ∃ defect, ∀ (other : SearchConfig α) (f : ScalarFunction α),
      other.validate = config.validate → search other f a b = Run.fail (.input defect) := by
  rcases Decidable.em (¬ isFinite a = true ∨ ¬ isFinite b = true ∨ (a == b) = true) with
    outside | inside
  · refine ⟨.interval a b, ?_⟩
    intro other f _
    rw [search, if_pos outside]
  cases valid : config.validate with
  | error fault =>
      refine ⟨.config fault, ?_⟩
      intro other f same
      rw [search, if_neg inside, same]
  | ok _ =>
      rw [not_or, not_or, Decidable.not_not, Decidable.not_not, Bool.not_eq_true] at inside
      exact absurd ⟨inside.1, inside.2.1, inside.2.2, valid⟩ h

theorem Opens.admits (h : Opens config f a b p) : Admits config a b :=
  ⟨h.finite_left, h.finite_right, h.distinct, h.valid⟩

theorem Opens.search_eq (h : Opens config f a b p) :
    search config f a b =
      (((scheme config).loop f config.maxIterations).run config.maxIterations
        (opening a b p)).after (openingTrace f a b) := by
  rw [h.admits.search_eq, Run.bind_of_ok (ScalarFunction.sample_ok_iff.mpr h.first)]
  rfl

theorem Admits.opens (h : Admits config a b)
    (first : (f.sample 1 (entry a b) :
      Run (SearchEntry α (Event α)) (Failure α) (Sample α)).outcome = .ok p) :
    Opens config f a b p :=
  ⟨h.finite_left, h.finite_right, h.distinct, h.valid, ScalarFunction.sample_ok_iff.mp first⟩

/-- A search without a first sample makes no other call, and only the verdict on its
configuration matters to it. -/
theorem search_of_not_opens (none : ∀ p, ¬ Opens config f a b p) :
    ∃ r : Course α (Solution α), (SearchEntry.arguments r.trace).length ≤ 1 ∧
      ∀ other : SearchConfig α, other.validate = config.validate → search other f a b = r := by
  by_cases admits : Admits config a b
  case neg =>
    obtain ⟨defect, rejects⟩ := search_of_not_admits admits
    exact ⟨Run.fail (.input defect), Nat.zero_le 1, fun other same => rejects other f same⟩
  cases first : (f.sample 1 (entry a b) :
      Run (SearchEntry α (Event α)) (Failure α) (Sample α)).outcome with
  | error e =>
      refine ⟨⟨openingTrace f a b, .error e⟩, Nat.le_refl 1, ?_⟩
      intro other same
      rw [(admits.congr same).search_eq, Run.bind_error first]
      rfl
  | ok p => exact absurd (admits.opens first) (none p)

theorem opens_of_ok {r : Solution α} (h : (search config f a b).outcome = .ok r) :
    ∃ p, Opens config f a b p := by
  by_cases admits : Admits config a b
  case neg =>
    obtain ⟨defect, rejects⟩ := search_of_not_admits admits
    rw [rejects config f rfl] at h
    cases h
  rw [admits.search_eq] at h
  obtain ⟨p, first, -, -⟩ := Run.ok_of_bind h
  exact ⟨p, admits.opens first⟩

/-- How a search may start. -/
def Starts (config : SearchConfig α) (f : ScalarFunction α) (a b : α)
    (trace : List (SearchEntry α (Event α))) (s : Interval α × Counters) : Prop :=
  ∃ p, Opens config f a b p ∧ trace = openingTrace f a b ∧ s = opening a b p

/-- A search comes to an interval in `k` iterations, and leaves a trace on the way. -/
abbrev Reaches (config : SearchConfig α) (f : ScalarFunction α) (a b : α) :=
  (scheme config).Reaches f config.maxIterations (Starts config f a b)

/-- The interval of a search after `k` iterations.  That `search` goes through it is said by
`search_passes`. -/
def HoldsAfter (config : SearchConfig α) (f : ScalarFunction α) (a b : α) (k : Nat)
    (s : Interval α) : Prop :=
  ∃ trace t, Reaches config f a b k trace t ∧ s = t.1

/-- A search comes to an interval and continues from there: after its first `k + 1` calls it does
what the iterations that its budget still allows do from this interval. -/
structure ContinuesFrom (config : SearchConfig α) (f : ScalarFunction α) (a b : α) (k : Nat)
    (s : Interval α) : Prop where
  within : k ≤ config.maxIterations
  course : ∃ trace, (SearchEntry.arguments trace).length = k + 1 ∧
    search config f a b =
      (iterate config f (config.maxIterations - k) s
        { iterations := k, functionEvaluations := k + 1 }).after trace

variable {k : Nat} {trace trace' : List (SearchEntry α (Event α))} {t t' : Interval α × Counters}

theorem Opens.starts (h : Opens config f a b p) :
    Starts config f a b (openingTrace f a b) (opening a b p) :=
  ⟨p, h, rfl, rfl⟩

theorem Opens.reaches (h : Opens config f a b p) :
    Reaches config f a b 0 (openingTrace f a b) (opening a b p) :=
  ⟨_, _, [], h.starts, Nat.zero_le _, .here, (List.append_nil _).symm⟩

theorem Starts.search_eq (h : Starts config f a b trace t) :
    search config f a b =
      (((scheme config).loop f config.maxIterations).run config.maxIterations t).after trace := by
  obtain ⟨p, opens, rfl, rfl⟩ := h
  exact opens.search_eq

theorem Starts.unique (h : Starts config f a b trace t) (h' : Starts config f a b trace' t') :
    t = t' := by
  obtain ⟨p, opens, -, rfl⟩ := h
  obtain ⟨p', opens', -, rfl⟩ := h'
  rw [opens.first.unique opens'.first]

theorem Starts.length_arguments (h : Starts config f a b trace t) :
    (SearchEntry.arguments trace).length = 1 := by
  obtain ⟨p, -, rfl, -⟩ := h
  rfl

/-- A search that is not rejected asks for its entry first. -/
theorem first_argument (finite_left : isFinite a = true) (finite_right : isFinite b = true)
    (distinct : (a == b) = false) (valid : config.validate = .ok ()) :
    (SearchEntry.arguments (search config f a b).trace)[0]? = some (entry a b) := by
  have admits : Admits config a b := ⟨finite_left, finite_right, distinct, valid⟩
  have begins : openingTrace f a b <+: (search config f a b).trace := by
    rw [admits.search_eq]
    exact Run.bind_trace_prefix (f.sample 1 (entry a b)) _
  obtain ⟨later, same⟩ := begins
  rw [← same]
  rfl

/-- A search that asks for a second point has its first sample. -/
theorem opens_of_argument {k : Nat} {x : α}
    (asked : (SearchEntry.arguments (search config f a b).trace)[k + 1]? = some x) :
    ∃ p, Opens config f a b p := by
  apply Classical.byContradiction
  intro none
  obtain ⟨r, few, same⟩ := search_of_not_opens (not_exists.mp none)
  rw [same config rfl] at asked
  obtain ⟨more, -⟩ := List.getElem?_eq_some_iff.mp asked
  omega

theorem Reaches.valid (h : Reaches config f a b k trace t) : config.validate = .ok () := by
  obtain ⟨_, _, _, ⟨_, opens, -⟩, -⟩ := h
  exact opens.valid

theorem Reaches.length_arguments (h : Reaches config f a b k trace t) :
    (SearchEntry.arguments trace).length = 1 + k :=
  Scheme.Reaches.length_arguments (fun _ _ => Starts.length_arguments) h

theorem Reaches.counters (h : Reaches config f a b k trace t) :
    t.2 = { iterations := k, functionEvaluations := k + 1 } := by
  obtain ⟨_, _, _, ⟨p, -, -, rfl⟩, -, leads, -⟩ := h
  rw [Scheme.leads_counters leads, Nat.add_comm k 1]
  exact congrArg (Counters.mk · (1 + k) 0) (Nat.zero_add k)

theorem Reaches.trace_prefix (h : Reaches config f a b k trace t) :
    trace <+: (search config f a b).trace :=
  Scheme.Reaches.trace_prefix (fun _ _ => Starts.search_eq) h

/-- What leads to an interval are the first calls of the search. -/
theorem Reaches.arguments_eq (h : Reaches config f a b k trace t) :
    SearchEntry.arguments trace =
      (SearchEntry.arguments (search config f a b).trace).take (k + 1) := by
  rw [Nat.add_comm, ← h.length_arguments]
  exact List.prefix_iff_eq_take.mp (SearchEntry.arguments_mono h.trace_prefix)

theorem Reaches.unique (h : Reaches config f a b k trace t)
    (h' : Reaches config f a b k trace' t') : t = t' :=
  Scheme.Reaches.unique (fun _ _ _ _ => Starts.unique) h h'

theorem Reaches.continuesFrom (h : Reaches config f a b k trace t) :
    ContinuesFrom config f a b k t.1 := by
  obtain ⟨within, course⟩ := Scheme.Reaches.course_eq (fun _ _ => Starts.search_eq) h
  refine ⟨within, trace, by rw [h.length_arguments, Nat.add_comm], ?_⟩
  rw [course, iterate_eq_run, ← h.counters]

/-- The intervals of `HoldsAfter` are those that the iterations of a search go through.  After each
number of iterations there is at most one, and the search continues from there.  It asks for one
more point where such an interval is not settled and the budget is not used up, and for the target
of that interval. -/
theorem search_passes (config : SearchConfig α) (f : ScalarFunction α) (a b : α) (k : Nat) :
    (∀ s, HoldsAfter config f a b k s →
      ContinuesFrom config f a b k s ∧ ∀ s', HoldsAfter config f a b k s' → s' = s) ∧
    ∀ x, (SearchEntry.arguments (search config f a b).trace)[k + 1]? = some x ↔
      ∃ s, HoldsAfter config f a b k s ∧ k < config.maxIterations ∧ ¬ s.settled config ∧
        x = s.target config := by
  constructor
  · rintro _ ⟨trace, t, reaches, rfl⟩
    refine ⟨reaches.continuesFrom, ?_⟩
    rintro _ ⟨trace', t', reaches', rfl⟩
    rw [reaches'.unique reaches]
  · intro x
    constructor
    · intro asked
      obtain ⟨p, opens⟩ := opens_of_argument asked
      rw [Nat.add_comm] at asked
      obtain ⟨trace, t, reaches, lt, unsettled, same⟩ :=
        Scheme.reaches_of_argument opens.search_eq opens.starts asked
      exact ⟨t.1, ⟨trace, t, reaches, rfl⟩, lt, unsettled, same⟩
    · rintro ⟨_, ⟨trace, t, reaches, rfl⟩, lt, unsettled, rfl⟩
      rw [Nat.add_comm, ← reaches.length_arguments]
      exact Scheme.Reaches.argument (fun _ _ => Starts.search_eq) reaches lt unsettled

/-- A search asks for its entry and for the targets of its states. -/
theorem target_of_argument {x : α} (h : x ∈ SearchEntry.arguments (search config f a b).trace) :
    isFinite a = true ∧ isFinite b = true ∧ (a == b) = false ∧ (x = entry a b ∨
      ∃ k trace t, Reaches config f a b k trace t ∧ ¬ t.1.settled config ∧
        x = t.1.target config) := by
  by_cases admits : Admits config a b
  case neg =>
    obtain ⟨defect, rejects⟩ := search_of_not_admits admits
    rw [rejects config f rfl] at h
    cases h
  refine ⟨admits.finite_left, admits.finite_right, admits.distinct, ?_⟩
  rw [admits.search_eq] at h
  rcases SearchEntry.mem_arguments_of_bind h with first | ⟨p, sampled, h⟩
  · exact .inl (List.mem_singleton.mp first)
  have opens : Opens config f a b p := admits.opens sampled
  obtain ⟨k, inner, t, leads, lt, unsettled, same⟩ := Scheme.leads_of_mem_arguments h
  exact .inr ⟨k, _, t, ⟨_, _, inner, opens.starts, Nat.le_of_lt lt, leads, rfl⟩,
    unsettled, same⟩

end Nonlinear.Minimum
