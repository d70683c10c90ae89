import Nonlinear.Proofs.Search.Course
import Nonlinear.Root.Search

/-! # The course of a root search

A root search samples both ends of its interval and then goes on with brackets.  Here is what
one iteration does, how the search begins, and through which brackets it passes.
-/

namespace Nonlinear.Root

open Scalar

variable {α : Type} [Scalar α]

namespace Bracket

/-- The step from the best estimate, proposed at the head of an iteration. -/
def move (config : SearchConfig α) (s : Bracket α) : Step × α :=
  s.keepBest.propose (s.keepBest.resolution config.tolerance) (s.best.x - s.previous.x)
    config.bisectionOnly

/-- The point that an iteration asks for. -/
def target (config : SearchConfig α) (s : Bracket α) : α :=
  s.keepBest.best.x + lengthen (s.keepBest.resolution config.tolerance) (s.move config).2

def settled (config : SearchConfig α) (s : Bracket α) : Prop :=
  s.keepBest.converged (s.keepBest.resolution config.tolerance) config.functionTolerance

instance (config : SearchConfig α) (s : Bracket α) : Decidable (s.settled config) := by
  unfold settled; infer_instance

end Bracket

/-- A root search goes on with brackets. -/
def scheme (config : SearchConfig α) : Scheme α (Event α) (Bracket α) where
  settled := Bracket.settled config
  target := Bracket.target config
  update s p := s.keepBest.advance p
  answer s := s.keepBest.best
  stepped s iteration p := .step iteration p.x p.y (s.move config).1
  converged p counters := .converged p.x p.y counters
  limit iterations p := .limit iterations p.x

theorem iterate_eq_run (config : SearchConfig α) (f : ScalarFunction α) (n : Nat)
    (s : Bracket α) (counters : Counters) :
    iterate config f n s counters =
      ((scheme config).loop f config.maxIterations).run n (s, counters) := by
  induction n generalizing s counters with
  | zero => rfl
  | succ n ih =>
      rw [iterate, Loop.run]
      show (if s.settled config then _ else _) = if s.settled config then _ else _
      congr 1
      simp only [Run.bind_eq, Scheme.loop, Run.bind_assoc]
      congr 1
      funext p
      show (Run.note _).bind _ = _
      rw [Run.note_bind, ih]
      rfl

variable {config : SearchConfig α} {f : ScalarFunction α} {a b : α}

/-- A search that has a sample at either end of its interval. -/
structure Sampled (config : SearchConfig α) (f : ScalarFunction α) (a b : α)
    (p q : Sample α) : Prop where
  finite_left : isFinite a = true
  finite_right : isFinite b = true
  valid : config.validate = .ok ()
  left : f.Gives 1 a p
  right : f.Gives 2 b q

/-- A search that goes past its ends: both values exceed the tolerance, and their sign bits
differ. -/
structure Opens (config : SearchConfig α) (f : ScalarFunction α) (a b : α)
    (p q : Sample α) : Prop extends Sampled config f a b p q where
  far_left : ¬ magnitude p.y ≤ config.functionTolerance
  far_right : ¬ magnitude q.y ≤ config.functionTolerance
  signs : (isNegative p.y == isNegative q.y) = false

/-- The calls at the ends. -/
def openingTrace (f : ScalarFunction α) (a b : α) : List (SearchEntry α (Event α)) :=
  [.call a (f 1 a), .call b (f 2 b)]

/-- The state in which the loop of a search starts. -/
def opening (p q : Sample α) : Bracket α × Counters :=
  (.between p q, { functionEvaluations := 2 })

/-- What a search does once it has its samples at the ends. -/
def proceed (config : SearchConfig α) (f : ScalarFunction α) (a b : α) (p q : Sample α) :
    Course α (Solution α) :=
  if magnitude p.y ≤ config.functionTolerance then
    ⟨[.event (.leftEndpoint a)], .ok ⟨a, p.y, { functionEvaluations := 2 }⟩⟩
  else if magnitude q.y ≤ config.functionTolerance then
    ⟨[.event (.rightEndpoint b)], .ok ⟨b, q.y, { functionEvaluations := 2 }⟩⟩
  else if isNegative p.y == isNegative q.y then
    ⟨[.event (.noSignChange a b)], .error (.invalidBracket a b p.y q.y)⟩
  else ((scheme config).loop f config.maxIterations).run config.maxIterations (opening p q)

variable {p q : Sample α}

/-- What a search asks of its input before the first call. -/
structure Admits (config : SearchConfig α) (a b : α) : Prop where
  finite_left : isFinite a = true
  finite_right : isFinite b = true
  valid : config.validate = .ok ()

theorem not_admits_iff : ¬ Admits config a b ↔
    isFinite a = false ∨ isFinite b = false ∨ config.validate ≠ .ok () := by
  have parts : Admits config a b ↔
      isFinite a = true ∧ isFinite b = true ∧ config.validate = .ok () :=
    ⟨fun h => ⟨h.1, h.2, h.3⟩, fun h => ⟨h.1, h.2.1, h.2.2⟩⟩
  rw [parts, Classical.not_and_iff_not_or_not, Classical.not_and_iff_not_or_not,
    Bool.not_eq_true, Bool.not_eq_true]

theorem Admits.congr {other : SearchConfig α} (h : Admits config a b)
    (same : other.validate = config.validate) : Admits other a b :=
  ⟨h.finite_left, h.finite_right, same.trans h.valid⟩

/-- A search that accepts its input asks for both ends and proceeds from there. -/
theorem Admits.search_eq (h : Admits config a b) :
    search config f a b =
      (f.sample 1 a).bind fun p => (f.sample 2 b).bind fun q => proceed config f a b p q := by
  have inside : ¬ (¬ isFinite a = true ∨ ¬ isFinite b = true) := by
    simp [h.finite_left, h.finite_right]
  rw [search, if_neg inside, h.valid]
  simp only [Run.bind_eq, iterate_eq_run]
  rfl

/-- A search that rejects its input does nothing else, whatever its function is. -/
theorem search_of_not_admits (h : ¬ Admits config a b) :
    ∃ defect, ∀ (other : SearchConfig α) (f : ScalarFunction α),
      other.validate = config.validate → search other f a b = Run.fail (.input defect) := by
  by_cases outside : ¬ isFinite a = true ∨ ¬ isFinite b = true
  · refine ⟨.bracket a b, ?_⟩
    intro other f _
    rw [search, if_pos outside]
  cases valid : config.validate with
  | error fault =>
      refine ⟨.config fault, ?_⟩
      intro other f same
      rw [search, if_neg outside, same]
  | ok _ =>
      rw [not_or, Decidable.not_not, Decidable.not_not] at outside
      exact absurd ⟨outside.1, outside.2, valid⟩ h

theorem Sampled.admits (h : Sampled config f a b p q) : Admits config a b :=
  ⟨h.finite_left, h.finite_right, h.valid⟩

theorem Sampled.search_eq (h : Sampled config f a b p q) :
    search config f a b = (proceed config f a b p q).after (openingTrace f a b) := by
  rw [h.admits.search_eq, Run.bind_of_ok (ScalarFunction.sample_ok_iff.mpr h.left),
    Run.bind_of_ok (ScalarFunction.sample_ok_iff.mpr h.right), Run.after_after]
  rfl

theorem Admits.sampled (h : Admits config a b)
    (left : (f.sample 1 a : Run (SearchEntry α (Event α)) (Failure α) (Sample α)).outcome = .ok p)
    (right : (f.sample 2 b : Run (SearchEntry α (Event α)) (Failure α) (Sample α)).outcome =
      .ok q) : Sampled config f a b p q :=
  ⟨h.finite_left, h.finite_right, h.valid, ScalarFunction.sample_ok_iff.mp left,
    ScalarFunction.sample_ok_iff.mp right⟩

/-- A search without a sample at either end makes no other calls, and only the verdict on its
configuration matters to it. -/
theorem search_of_not_sampled (none : ∀ p q, ¬ Sampled config f a b p q) :
    ∃ r : Course α (Solution α), (SearchEntry.arguments r.trace).length ≤ 2 ∧
      ∀ other : SearchConfig α, other.validate = config.validate → search other f a b = r := by
  by_cases admits : Admits config a b
  case neg =>
    obtain ⟨defect, rejects⟩ := search_of_not_admits admits
    exact ⟨Run.fail (.input defect), Nat.zero_le 2, fun other same => rejects other f same⟩
  cases left : (f.sample 1 a :
      Run (SearchEntry α (Event α)) (Failure α) (Sample α)).outcome with
  | error e =>
      refine ⟨⟨[.call a (f 1 a)], .error e⟩, Nat.le_succ 1, ?_⟩
      intro other same
      rw [(admits.congr same).search_eq, Run.bind_error left]
      rfl
  | ok p =>
      cases right : (f.sample 2 b :
          Run (SearchEntry α (Event α)) (Failure α) (Sample α)).outcome with
      | error e =>
          refine ⟨⟨openingTrace f a b, .error e⟩, Nat.le_refl 2, ?_⟩
          intro other same
          rw [(admits.congr same).search_eq, Run.bind_of_ok left, Run.bind_error right]
          rfl
      | ok q => exact absurd (admits.sampled left right) (none p q)

theorem sampled_of_ok {r : Solution α} (h : (search config f a b).outcome = .ok r) :
    ∃ p q, Sampled config f a b p q := by
  by_cases admits : Admits config a b
  case neg =>
    obtain ⟨defect, rejects⟩ := search_of_not_admits admits
    rw [rejects config f rfl] at h
    cases h
  rw [admits.search_eq] at h
  obtain ⟨p, left, -, h⟩ := Run.ok_of_bind h
  obtain ⟨q, right, -, -⟩ := Run.ok_of_bind h
  exact ⟨p, q, admits.sampled left right⟩

theorem Sampled.taken_left (h : Sampled config f a b p q) : p.Taken (openingTrace f a b) :=
  h.left.taken.append_left [.call b (f 2 b)]

theorem Sampled.taken_right (h : Sampled config f a b p q) : q.Taken (openingTrace f a b) :=
  List.mem_cons_of_mem _ h.right.taken

/-- Only the loop of a search makes more calls than those at the ends. -/
theorem Sampled.opens (h : Sampled config f a b p q)
    (calls : SearchEntry.arguments (proceed config f a b p q).trace ≠ []) :
    Opens config f a b p q := by
  rw [proceed] at calls
  split at calls
  · exact absurd rfl calls
  split at calls
  · exact absurd rfl calls
  split at calls
  · exact absurd rfl calls
  exact ⟨h, ‹_›, ‹_›, Bool.eq_false_iff.mpr ‹_›⟩

theorem Opens.proceed_eq (h : Opens config f a b p q) :
    proceed config f a b p q =
      ((scheme config).loop f config.maxIterations).run config.maxIterations (opening p q) := by
  rw [proceed, if_neg h.far_left, if_neg h.far_right, h.signs]
  rfl

theorem Opens.search_eq (h : Opens config f a b p q) :
    search config f a b =
      (((scheme config).loop f config.maxIterations).run config.maxIterations
        (opening p q)).after (openingTrace f a b) := by
  rw [h.toSampled.search_eq, h.proceed_eq]

/-- A search succeeds at one of its ends or in its loop. -/
theorem search_ok {r : Solution α} (h : (search config f a b).outcome = .ok r) :
    ∃ p q, Sampled config f a b p q ∧
      ((r.x = p.x ∧ r.value = p.y ∨ r.x = q.x ∧ r.value = q.y) ∧
          magnitude r.value ≤ config.functionTolerance ∨
        Opens config f a b p q) := by
  obtain ⟨p, q, sampled⟩ := sampled_of_ok h
  refine ⟨p, q, sampled, ?_⟩
  rw [sampled.search_eq, Run.after_outcome, proceed] at h
  split at h
  · cases h
    exact .inl ⟨.inl ⟨sampled.left.at_point.symm, rfl⟩, ‹_›⟩
  · split at h
    · cases h
      exact .inl ⟨.inr ⟨sampled.right.at_point.symm, rfl⟩, ‹_›⟩
    · split at h
      · cases h
      · exact .inr ⟨sampled, ‹_›, ‹_›, Bool.eq_false_iff.mpr ‹_›⟩

/-- How a search may start. -/
def Starts (config : SearchConfig α) (f : ScalarFunction α) (a b : α)
    (trace : List (SearchEntry α (Event α))) (s : Bracket α × Counters) : Prop :=
  ∃ p q, Opens config f a b p q ∧ trace = openingTrace f a b ∧ s = opening p q

/-- A search comes to a bracket in `k` iterations, and leaves a trace on the way. -/
abbrev Reaches (config : SearchConfig α) (f : ScalarFunction α) (a b : α) :=
  (scheme config).Reaches f config.maxIterations (Starts config f a b)

/-- The bracket of a search after `k` iterations, as the head of the next one sees it.  That
`search` goes through it is said by `search_passes`. -/
def HoldsAfter (config : SearchConfig α) (f : ScalarFunction α) (a b : α) (k : Nat)
    (s : Bracket α) : Prop :=
  ∃ trace t, Reaches config f a b k trace t ∧ s = t.1.keepBest

/-- A search comes to a bracket and continues from there: after its first `k + 2` calls it does what
the iterations that its budget still allows do.  The first thing that these do is to put the better
estimate first, and the bracket is the one that they see then. -/
structure ContinuesFrom (config : SearchConfig α) (f : ScalarFunction α) (a b : α) (k : Nat)
    (s : Bracket α) : Prop where
  within : k ≤ config.maxIterations
  course : ∃ trace t, s = t.keepBest ∧ (SearchEntry.arguments trace).length = k + 2 ∧
    search config f a b =
      (iterate config f (config.maxIterations - k) t
        { iterations := k, functionEvaluations := k + 2 }).after trace

variable {k : Nat} {trace trace' : List (SearchEntry α (Event α))} {t t' : Bracket α × Counters}

theorem Opens.starts (h : Opens config f a b p q) :
    Starts config f a b (openingTrace f a b) (opening p q) :=
  ⟨p, q, h, rfl, rfl⟩

theorem Opens.reaches (h : Opens config f a b p q) :
    Reaches config f a b 0 (openingTrace f a b) (opening p q) :=
  ⟨_, _, [], h.starts, Nat.zero_le _, .here, (List.append_nil _).symm⟩

theorem Starts.search_eq (h : Starts config f a b trace t) :
    search config f a b =
      (((scheme config).loop f config.maxIterations).run config.maxIterations t).after trace := by
  obtain ⟨p, q, opens, rfl, rfl⟩ := h
  exact opens.search_eq

theorem Starts.length_arguments (h : Starts config f a b trace t) :
    (SearchEntry.arguments trace).length = 2 := by
  obtain ⟨p, q, -, rfl, -⟩ := h
  rfl

theorem Starts.unique (h : Starts config f a b trace t) (h' : Starts config f a b trace' t') :
    t = t' := by
  obtain ⟨p, q, opens, -, rfl⟩ := h
  obtain ⟨p', q', opens', -, rfl⟩ := h'
  rw [opens.left.unique opens'.left, opens.right.unique opens'.right]

/-- A search that asks for a third point goes past its ends. -/
theorem opens_of_argument {x : α}
    (asked : (SearchEntry.arguments (search config f a b).trace)[k + 2]? = some x) :
    ∃ p q, Opens config f a b p q := by
  by_cases sampled : ∃ p q, Sampled config f a b p q
  case neg =>
    obtain ⟨r, few, same⟩ :=
      search_of_not_sampled fun p q sample => sampled ⟨p, q, sample⟩
    rw [same config rfl] at asked
    obtain ⟨more, -⟩ := List.getElem?_eq_some_iff.mp asked
    omega
  obtain ⟨p, q, sampled⟩ := sampled
  refine ⟨p, q, sampled.opens fun none => ?_⟩
  rw [sampled.search_eq, Run.after_trace, SearchEntry.arguments_append, none] at asked
  cases asked

theorem Reaches.valid (h : Reaches config f a b k trace t) : config.validate = .ok () := by
  obtain ⟨_, _, _, ⟨_, _, opens, -⟩, -⟩ := h
  exact opens.valid

theorem Reaches.length_arguments (h : Reaches config f a b k trace t) :
    (SearchEntry.arguments trace).length = 2 + k :=
  Scheme.Reaches.length_arguments (fun _ _ => Starts.length_arguments) h

theorem Reaches.counters (h : Reaches config f a b k trace t) :
    t.2 = { iterations := k, functionEvaluations := k + 2 } := by
  obtain ⟨_, _, _, ⟨p, q, -, -, rfl⟩, -, leads, -⟩ := h
  rw [Scheme.leads_counters leads, Nat.add_comm k 2]
  exact congrArg (Counters.mk · (2 + k) 0) (Nat.zero_add k)

theorem Reaches.trace_prefix (h : Reaches config f a b k trace t) :
    trace <+: (search config f a b).trace :=
  Scheme.Reaches.trace_prefix (fun _ _ => Starts.search_eq) h

theorem Reaches.unique (h : Reaches config f a b k trace t)
    (h' : Reaches config f a b k trace' t') : t = t' :=
  Scheme.Reaches.unique (fun _ _ _ _ => Starts.unique) h h'

theorem Reaches.continuesFrom (h : Reaches config f a b k trace t) :
    ContinuesFrom config f a b k t.1.keepBest := by
  obtain ⟨within, course⟩ := Scheme.Reaches.course_eq (fun _ _ => Starts.search_eq) h
  refine ⟨within, trace, t.1, rfl, by rw [h.length_arguments, Nat.add_comm], ?_⟩
  rw [course, iterate_eq_run, ← h.counters]

/-- The brackets of `HoldsAfter` are those that the iterations of a search go through.  After each
number of iterations there is at most one, and the search continues from there.  It asks for one
more point where such a bracket is not settled and the budget is not used up, and for the target of
that bracket. -/
theorem search_passes (config : SearchConfig α) (f : ScalarFunction α) (a b : α) (k : Nat) :
    (∀ s, HoldsAfter config f a b k s →
      ContinuesFrom config f a b k s ∧ ∀ s', HoldsAfter config f a b k s' → s' = s) ∧
    ∀ x, (SearchEntry.arguments (search config f a b).trace)[k + 2]? = some x ↔
      ∃ trace t, Reaches config f a b k trace t ∧ k < config.maxIterations ∧
        ¬ t.1.settled config ∧ x = t.1.target config := by
  constructor
  · rintro _ ⟨trace, t, reaches, rfl⟩
    refine ⟨reaches.continuesFrom, ?_⟩
    rintro _ ⟨trace', t', reaches', rfl⟩
    rw [reaches'.unique reaches]
  · intro x
    constructor
    · intro asked
      obtain ⟨p, q, opens⟩ := opens_of_argument asked
      rw [Nat.add_comm] at asked
      exact Scheme.reaches_of_argument opens.search_eq opens.starts asked
    · rintro ⟨trace, t, reaches, lt, unsettled, rfl⟩
      rw [Nat.add_comm, ← reaches.length_arguments]
      exact Scheme.Reaches.argument (fun _ _ => Starts.search_eq) reaches lt unsettled

/-- A search asks for its ends and for the targets of its states. -/
theorem target_of_argument {x : α} (h : x ∈ SearchEntry.arguments (search config f a b).trace) :
    isFinite a = true ∧ isFinite b = true ∧ (x = a ∨ x = b ∨
      ∃ k trace t, Reaches config f a b k trace t ∧ ¬ t.1.settled config ∧
        x = t.1.target config) := by
  by_cases admits : Admits config a b
  case neg =>
    obtain ⟨defect, rejects⟩ := search_of_not_admits admits
    rw [rejects config f rfl] at h
    cases h
  refine ⟨admits.finite_left, admits.finite_right, ?_⟩
  rw [admits.search_eq] at h
  rcases SearchEntry.mem_arguments_of_bind h with first | ⟨p, left, h⟩
  · exact .inl (List.mem_singleton.mp first)
  rcases SearchEntry.mem_arguments_of_bind h with second | ⟨q, right, h⟩
  · exact .inr (.inl (List.mem_singleton.mp second))
  have opens : Opens config f a b p q :=
    (admits.sampled left right).opens (List.ne_nil_of_mem h)
  rw [opens.proceed_eq] at h
  obtain ⟨k, inner, t, leads, lt, unsettled, same⟩ := Scheme.leads_of_mem_arguments h
  exact .inr (.inr ⟨k, _, t, ⟨_, _, inner, opens.starts, Nat.le_of_lt lt, leads, rfl⟩,
    unsettled, same⟩)

end Nonlinear.Root
