import Nonlinear.Proofs.Minimum.Containment
import Nonlinear.Proofs.Scalar.Real

/-! # How fast a minimum search shrinks its interval

In exact arithmetic every iteration takes at least the resolution off the interval, and a
golden-section step and the step after it together take off a fixed fraction.  A parabolic step is
only compared with the golden-section step that would be taken instead.  It may be as short as the
resolution, time and again, so what is geometric is counted in golden-section steps.  The function
at the end keeps a search on such steps.
-/

namespace Nonlinear.Minimum

variable {K : Type} [Field K] [LinearOrder K] [ExactConstants K]

namespace Interval

variable {s : Interval K} {p : Sample K} {x into other distance : K}

def width (s : Interval K) : K := s.b - s.a

/-- The shorter one of the two parts into which the best sample cuts the interval. -/
def room (s : Interval K) : K := min (s.best.x - s.a) (s.b - s.best.x)

/-- The point `x` is in one of the two parts, at some distance from the best sample. -/
inductive Enters (s : Interval K) (x : K) : (into other distance : K) → Prop where
  | up : s.best.x < x → Enters s x (s.b - s.best.x) (s.best.x - s.a) (x - s.best.x)
  | down : x < s.best.x → Enters s x (s.best.x - s.a) (s.b - s.best.x) (s.best.x - x)

theorem update_up (better : p.y ≤ s.best.y) (up : s.best.x < p.x) :
    s.update p = ⟨s.best.x, s.b, p, s.best, s.second⟩ := by
  rw [update_of_le better, if_neg (not_lt_of_gt up), if_neg (not_lt_of_gt up)]

omit [ExactConstants K] in
theorem Enters.parts (h : s.Enters x into other distance) :
    s.width = into + other ∧ s.room = min into other := by
  cases h with
  | up =>
      refine ⟨?_, min_comm _ _⟩
      unfold width
      ring
  | down =>
      refine ⟨?_, rfl⟩
      unfold width
      ring

/-- A better trial leaves the part that it is in, and a worse one the part up to it. -/
theorem Enters.update (h : s.Enters p.x into other distance) :
    (s.update p).width = into ∧ (s.update p).room = min distance (into - distance) ∨
      (s.update p).width = other + distance ∧ (s.update p).room = min distance other := by
  unfold width room
  by_cases better : p.y ≤ s.best.y
  · left
    cases h with
    | up after =>
        rw [update_up better after, sub_sub_sub_cancel_right]
        exact ⟨rfl, rfl⟩
    | down before =>
        rw [update_of_le better, if_pos before, if_pos before, sub_sub_sub_cancel_left, min_comm]
        exact ⟨rfl, rfl⟩
  · right
    obtain ⟨left, right, best⟩ := update_of_not_le better
    rw [left, right, best]
    cases h with
    | up after =>
        rw [if_neg (not_lt_of_gt after), if_neg (not_lt_of_gt after), min_comm]
        exact ⟨by ring, rfl⟩
    | down before =>
        rw [if_pos before, if_pos before]
        exact ⟨by ring, rfl⟩

variable [IsStrictOrderedRing K] {config : SearchConfig K}

theorem target_enters (valid : config.validate = .ok ()) :
    0 < (s.move config).2 ∧ s.Enters (s.target config) (s.b - s.best.x) (s.best.x - s.a)
        (max |(s.move config).2| (s.accuracy config)) ∨
      (s.move config).2 ≤ 0 ∧ s.Enters (s.target config) (s.best.x - s.a) (s.b - s.best.x)
        (max |(s.move config).2| (s.accuracy config)) := by
  have resolution := s.accuracy_pos config valid
  have moved : s.target config - s.best.x = lengthen (s.accuracy config) (s.move config).2 :=
    add_sub_cancel_left _ _
  rw [← abs_lengthen resolution.le]
  rcases lt_or_ge 0 (s.move config).2 with up | down
  · have positive := lengthen_pos resolution up
    rw [← moved] at positive ⊢
    rw [abs_of_pos positive]
    exact .inl ⟨up, .up (sub_pos.mp positive)⟩
  · have negative := lengthen_neg resolution down
    rw [← moved] at negative ⊢
    rw [abs_of_neg negative, neg_sub]
    exact .inr ⟨down, .down (sub_neg.mp negative)⟩

/-- A trial in a part of length `into`, at least the resolution away from the best sample and from
the end.  It goes at most half way, or it is short in comparison with the other part.  A
golden-section step goes far enough into the longer part. -/
structure Ventures (config : SearchConfig K) (s : Interval K) (into other distance : K) :
    Prop where
  away : config.tolerance / 3 ≤ distance
  clear : config.tolerance / 3 ≤ into - distance
  short : 2 * distance ≤ into ∨ distance ≤ ExactConstants.golden * other
  golden : (s.move config).1 = .goldenSection →
    other ≤ into ∧ ExactConstants.golden * into ≤ distance ∧ 2 * distance ≤ into

theorem third_le_accuracy (config : SearchConfig K) (s : Interval K) :
    config.tolerance / 3 ≤ s.accuracy config := by
  have constant : 0 ≤ (ExactConstants.sqrtEpsilon : K) := ExactConstants.sqrtEpsilon_nonneg
  have : 0 ≤ ExactConstants.sqrtEpsilon * |s.best.x| := mul_nonneg constant (abs_nonneg _)
  rw [accuracy_exact]
  linarith

theorem double_golden_le {x : K} (nonneg : 0 ≤ x) : 2 * (ExactConstants.golden * x) ≤ x := by
  have golden_lt : (ExactConstants.golden : K) < 1 / 2 := ExactConstants.golden_lt_half
  rw [← mul_assoc]
  exact mul_le_of_le_one_left nonneg (by linarith)

theorem Ventures.of_golden (valid : config.validate = .ok ()) {m : K} (longer : other ≤ into)
    (wide : 2 * s.accuracy config < into) (step : |m| = ExactConstants.golden * into) :
    Ventures config s into other (max |m| (s.accuracy config)) := by
  have fine := s.third_le_accuracy config
  have resolution := s.accuracy_pos config valid
  have long := le_max_right |m| (s.accuracy config)
  have half : 2 * max |m| (s.accuracy config) ≤ into := by
    rw [mul_max_of_nonneg _ _ zero_le_two, step]
    exact max_le (double_golden_le (by linarith)) wide.le
  exact ⟨fine.trans long, by linarith, .inl half,
    fun _ => ⟨longer, step.ge.trans (le_max_left _ _), half⟩⟩

theorem Ventures.of_parabolic (valid : config.validate = .ok ()) {m : K}
    (kind : (s.move config).1 = .parabolic)
    (shorter : |m| < ExactConstants.golden * max into other)
    (clear : |m| + 2 * s.accuracy config < into) :
    Ventures config s into other (max |m| (s.accuracy config)) := by
  have fine := s.third_le_accuracy config
  have resolution := s.accuracy_pos config valid
  have nonneg := abs_nonneg m
  refine ⟨fine.trans (le_max_right _ _), ?_, ?_, fun golden => ?_⟩
  · have : max |m| (s.accuracy config) ≤ |m| + s.accuracy config :=
      max_le (by linarith) (by linarith)
    linarith
  · rcases le_total |m| (s.accuracy config) with tiny | long
    · rw [max_eq_right tiny]
      exact .inl (by linarith)
    · rw [max_eq_left long]
      rcases le_total other into with longer | longer
      · rw [max_eq_left longer] at shorter
        have := double_golden_le (x := into) (by linarith)
        exact .inl (by linarith)
      · rw [max_eq_right longer] at shorter
        exact .inr shorter.le
  · rw [kind] at golden
    cases golden

theorem abs_far (inside : s.best.x ∈ Set.Ioo s.a s.b) :
    |s.far - s.best.x| = max (s.best.x - s.a) (s.b - s.best.x) := by
  obtain ⟨left, right⟩ := inside
  unfold far
  rw [midpoint_exact]
  split
  · rw [abs_of_pos (sub_pos.mpr right), max_eq_right (by linarith)]
  · rw [abs_of_neg (sub_neg.mpr left), neg_sub, max_eq_left (by linarith)]

/-- A golden-section step goes to the farther end. -/
theorem golden_enters (valid : config.validate = .ok ()) (unsettled : ¬ s.settled config)
    (inside : s.best.x ∈ Set.Ioo s.a s.b) (golden : (s.move config).2 = s.goldenStep) :
    ∃ into other, other ≤ into ∧ 2 * s.accuracy config < into ∧
      |(s.move config).2| = ExactConstants.golden * into ∧
      s.Enters (s.target config) into other (max |(s.move config).2| (s.accuracy config)) := by
  have away := s.far_of_unsettled config unsettled
  have golden_pos : 0 < (ExactConstants.golden : K) := ExactConstants.golden_pos
  have direction := golden.trans s.goldenStep_exact
  rcases lt_or_ge s.best.x s.midpoint with left | right
  · have far : s.far = s.b := if_pos left
    have up : 0 < s.b - s.best.x := sub_pos.mpr inside.2
    rw [far, abs_of_pos up] at away
    rw [far] at direction
    have step : 0 < (s.move config).2 := direction ▸ mul_pos golden_pos up
    rcases s.target_enters valid with ⟨-, enters⟩ | ⟨down, -⟩
    · rw [midpoint_exact] at left
      exact ⟨_, _, by linarith, away, (abs_of_pos step).trans direction, enters⟩
    · exact absurd step (not_lt_of_ge down)
  · have far : s.far = s.a := if_neg (not_lt.mpr right)
    have down : s.a - s.best.x < 0 := sub_neg.mpr inside.1
    rw [far, abs_of_neg down, neg_sub] at away
    rw [far] at direction
    have step : (s.move config).2 < 0 := direction ▸ mul_neg_of_pos_of_neg golden_pos down
    rcases s.target_enters valid with ⟨up, -⟩ | ⟨-, enters⟩
    · exact absurd step (not_lt_of_gt up)
    · rw [midpoint_exact] at right
      refine ⟨_, _, by linarith, away, ?_, enters⟩
      rw [abs_of_neg step, direction, ← mul_neg, neg_sub]

/-- Where the next trial of a search is. -/
theorem target_ventures (valid : config.validate = .ok ()) (unsettled : ¬ s.settled config)
    (inside : s.best.x ∈ Set.Ioo s.a s.b) : ∃ into other distance,
      s.Enters (s.target config) into other distance ∧ Ventures config s into other distance := by
  rcases s.move_cases config with golden | ⟨kind, parabolic⟩
  · obtain ⟨into, other, longer, wide, size, enters⟩ :=
      s.golden_enters valid unsettled inside (congrArg Prod.snd golden)
    exact ⟨_, _, _, enters, .of_golden valid longer wide size⟩
  · obtain ⟨-, -, shorter, above, below⟩ := Interval.parabolicStep_eq_some_iff.mp parabolic
    have golden_pos : 0 < (ExactConstants.golden : K) := ExactConstants.golden_pos
    rw [goldenStep_exact, abs_mul, abs_of_pos golden_pos, abs_far inside] at shorter
    rcases s.target_enters valid with ⟨up, enters⟩ | ⟨down, enters⟩
    · refine ⟨_, _, _, enters, .of_parabolic valid kind ?_ ?_⟩
      · rw [max_comm]
        exact shorter
      · rw [abs_of_pos up]
        linarith
    · refine ⟨_, _, _, enters, .of_parabolic valid kind shorter ?_⟩
      rw [abs_of_nonpos down]
      linarith

/-- What an iteration does to the width of an interval and to the room in it. -/
structure Shrinks (config : SearchConfig K) (s t : Interval K) : Prop where
  narrower : t.width + config.tolerance / 3 ≤ s.width
  room : config.tolerance / 3 ≤ t.room
  /-- A golden-section step takes off a fourth, or it leaves room. -/
  golden : (s.move config).1 = .goldenSection →
    4 * t.width ≤ 3 * s.width ∨ ExactConstants.golden * t.width ≤ t.room
  /-- Where there is room, any step takes off a fraction. -/
  roomy : ExactConstants.golden * s.width ≤ s.room →
    t.width ≤ (1 - ExactConstants.golden ^ 2) * s.width

theorem Ventures.shrinks (h : Ventures config s into other distance)
    (valid : config.validate = .ok ()) (enters : s.Enters p.x into other distance)
    (least : config.tolerance / 3 ≤ s.room) : Shrinks config s (s.update p) := by
  obtain ⟨tolerance, -⟩ := SearchConfig.bounds_of_valid valid
  have golden_pos : 0 < (ExactConstants.golden : K) := ExactConstants.golden_pos
  obtain ⟨away, clear, short, golden⟩ := h
  obtain ⟨width, room⟩ := enters.parts
  rw [room, le_min_iff] at least
  have leaves := enters.update
  constructor
  case narrower => rcases leaves with ⟨left, -⟩ | ⟨left, -⟩ <;> linarith
  case room =>
    rcases leaves with ⟨-, left⟩ | ⟨-, left⟩ <;> rw [left]
    · exact le_min away clear
    · exact le_min away least.2
  case golden =>
    intro kind
    obtain ⟨longer, far, half⟩ := golden kind
    rcases leaves with ⟨left, space⟩ | ⟨left, -⟩
    · rw [left, space]
      exact .inr (le_min far (by linarith))
    · rw [left, width]
      exact .inl (by linarith)
  case roomy =>
    intro roomy
    rw [room, le_min_iff, width] at roomy
    have share : 0 ≤ ExactConstants.golden * (into + other) :=
      mul_nonneg golden_pos.le (by linarith)
    have less := double_golden_le share
    have fraction : (1 - ExactConstants.golden ^ 2) * s.width =
        into + other - ExactConstants.golden * (ExactConstants.golden * (into + other)) := by
      rw [width]
      ring
    rw [fraction]
    rcases leaves with ⟨left, -⟩ | ⟨left, -⟩ <;> rw [left]
    · linarith
    · rcases short with half | near
      · linarith
      · have more := mul_le_mul_of_nonneg_left roomy.1 golden_pos.le
        have split : ExactConstants.golden * other =
            ExactConstants.golden * (into + other) - ExactConstants.golden * into := by ring
        linarith

/-- What every iteration does. -/
theorem shrinks (valid : config.validate = .ok ()) (unsettled : ¬ s.settled config)
    (inside : s.best.x ∈ Set.Ioo s.a s.b) (least : config.tolerance / 3 ≤ s.room)
    (at_target : p.x = s.target config) : Shrinks config s (s.update p) := by
  obtain ⟨_, _, _, enters, ventures⟩ := s.target_ventures valid unsettled inside
  rw [← at_target] at enters
  exact ventures.shrinks valid enters least

/-- There is room in the first interval, if it is not settled. -/
theorem room_around {lo hi : K} (golden : 1 / 3 ≤ (ExactConstants.golden : K))
    (inside : p.x ∈ Set.Ioo lo hi) (at_entry : p.x = lo + ExactConstants.golden * (hi - lo))
    (unsettled : ¬ (around lo hi p).settled config) :
    config.tolerance / 3 ≤ (around lo hi p).room := by
  have golden_lt : (ExactConstants.golden : K) < 1 / 2 := ExactConstants.golden_lt_half
  have fine := third_le_accuracy config (around lo hi p)
  have away := (around lo hi p).far_of_unsettled config unsettled
  rw [abs_far inside] at away
  change _ < max (p.x - lo) (hi - p.x) at away
  have wide : 0 < hi - lo := sub_pos.mpr (inside.1.trans inside.2)
  have third : (hi - lo) / 3 ≤ p.x - lo := by
    rw [at_entry, add_sub_cancel_left]
    have := mul_le_mul_of_nonneg_right golden wide.le
    linarith
  have half : p.x - lo ≤ hi - p.x := by
    have := mul_le_mul_of_nonneg_right golden_lt.le wide.le
    rw [at_entry]
    linarith
  rw [max_eq_right half] at away
  show config.tolerance / 3 ≤ min (p.x - lo) (hi - p.x)
  exact le_min (by linarith) (by linarith)

theorem wide_of_unsettled (unsettled : ¬ s.settled config)
    (inside : s.best.x ∈ Set.Ioo s.a s.b) : 2 * (config.tolerance / 3) < s.width := by
  have fine := third_le_accuracy config s
  have away := s.far_of_unsettled config unsettled
  rw [abs_far inside] at away
  have part : max (s.best.x - s.a) (s.b - s.best.x) ≤ s.width :=
    max_le (sub_le_sub_right inside.2.le _) (sub_le_sub_left inside.1.le _)
  linarith

end Interval

variable [IsStrictOrderedRing K] {config : SearchConfig K} {f : ScalarFunction K} {a b : K}
  {k m : Nat} {trace trace' : List (SearchEntry K (Event K))} {s t : Interval K × Counters}

theorem Reaches.room (golden : 1 / 3 ≤ (ExactConstants.golden : K))
    (h : Reaches config f a b k trace t) :
    ¬ t.1.settled config → config.tolerance / 3 ≤ t.1.room := by
  refine Scheme.Reaches.invariant
    (P := fun _ s => ¬ s.settled config → config.tolerance / 3 ≤ s.room) ?_ ?_ h
  · rintro _ _ ⟨p, opens, rfl, rfl⟩ unsettled
    have at_entry : p.x = entry a b := opens.first.at_point
    have inside := entry_mem opens.ne
    rw [← at_entry] at inside
    exact Interval.room_around golden inside at_entry unsettled
  · intro k trace more s p reaches room unsettled gives _ _
    exact (Interval.shrinks h.valid unsettled (Reaches.inside reaches).1 (room unsettled)
      gives.at_point).room

/-- Every interval of a search but the first comes from the one before it. -/
theorem Reaches.shrinks (golden : 1 / 3 ≤ (ExactConstants.golden : K))
    (h : Reaches config f a b (k + 1) trace t) :
    ∃ earlier s, Reaches config f a b k earlier s ∧ ¬ s.1.settled config ∧
      s.1.Shrinks config t.1 := by
  obtain ⟨earlier, s, p, before, unsettled, gives, rfl⟩ := Scheme.Reaches.succ h
  exact ⟨earlier, s, before, unsettled, Interval.shrinks h.valid unsettled
    (Reaches.inside before).1 (Reaches.room golden before unsettled) gives.at_point⟩

theorem Reaches.width_nonneg (h : Reaches config f a b k trace t) : 0 ≤ t.1.width :=
  sub_nonneg.mpr (h.inside.1.1.trans h.inside.1.2).le

omit [IsStrictOrderedRing K] in
theorem Reaches.begins (h : Reaches config f a b 0 trace t) :
    t.1.width = (ends a b).2 - (ends a b).1 := by
  obtain ⟨_, _, _, ⟨p, -, -, rfl⟩, -, leads, -⟩ := h
  cases leads with
  | here => rfl

theorem ends_width (a b : K) : (ends a b).2 - (ends a b).1 = |b - a| := by
  unfold ends
  split
  · rw [abs_of_pos (sub_pos.mpr ‹_›)]
  · rw [abs_of_nonpos (sub_nonpos.mpr (not_lt.mp ‹_›)), neg_sub]

/-- Every iteration takes a third of the tolerance off the interval. -/
theorem Reaches.width_le (golden : 1 / 3 ≤ (ExactConstants.golden : K))
    (h : Reaches config f a b k trace t) :
    t.1.width + k * (config.tolerance / 3) ≤ |b - a| := by
  induction k generalizing trace t with
  | zero => rw [h.begins, ends_width, Nat.cast_zero, zero_mul, add_zero]
  | succ k ih =>
      obtain ⟨_, s, before, -, shrinks⟩ := h.shrinks golden
      have := ih before
      have := shrinks.narrower
      push_cast
      linarith

theorem Reaches.width_mono (golden : 1 / 3 ≤ (ExactConstants.golden : K)) {l : Nat}
    (from_k : Reaches config f a b k trace s) (to_l : Reaches config f a b l trace' t)
    (le : k ≤ l) : t.1.width ≤ s.1.width := by
  obtain ⟨tolerance, -⟩ := SearchConfig.bounds_of_valid from_k.valid
  obtain ⟨m, rfl⟩ := Nat.exists_eq_add_of_le le
  clear le
  induction m generalizing trace' t with
  | zero =>
      obtain rfl : s = t := from_k.unique to_l
      exact le_refl _
  | succ m ih =>
      obtain ⟨_, u, before, -, shrinks⟩ := Reaches.shrinks (k := k + m) golden to_l
      have := ih before
      have := shrinks.narrower
      linarith

/-- A golden-section step and the next step take off the square of the golden section. -/
theorem Reaches.two_steps (golden : 1 / 3 ≤ (ExactConstants.golden : K))
    (from_k : Reaches config f a b k trace s) (kind : (s.1.move config).1 = .goldenSection)
    (two_on : Reaches config f a b (k + 2) trace' t) :
    t.1.width ≤ (1 - ExactConstants.golden ^ 2) * s.1.width := by
  have golden_pos : 0 < (ExactConstants.golden : K) := ExactConstants.golden_pos
  have golden_lt : (ExactConstants.golden : K) < 1 / 2 := ExactConstants.golden_lt_half
  have square : (ExactConstants.golden : K) ^ 2 ≤ 1 / 4 := by nlinarith
  obtain ⟨tolerance, -⟩ := SearchConfig.bounds_of_valid from_k.valid
  obtain ⟨_, u, one_on, -, second⟩ := Reaches.shrinks (k := k + 1) golden two_on
  obtain ⟨_, v, before, -, first⟩ := Reaches.shrinks golden one_on
  obtain rfl : s = v := from_k.unique before
  have first_narrower := first.narrower
  have second_narrower := second.narrower
  rcases first.golden kind with fourth | room
  · have := mul_le_mul_of_nonneg_right square from_k.width_nonneg
    linarith
  · calc t.1.width ≤ (1 - ExactConstants.golden ^ 2) * u.1.width := second.roomy room
      _ ≤ (1 - ExactConstants.golden ^ 2) * s.1.width :=
          mul_le_mul_of_nonneg_left (by linarith) (by linarith)

/-- At least `n` of the iterations from `k` up to `l` take golden-section steps. -/
def GoldenSections (config : SearchConfig K) (f : ScalarFunction K) (a b : K) (n k l : Nat) :
    Prop :=
  ∃ J ⊆ Finset.Ico k l, n ≤ J.card ∧
    ∀ j ∈ J, ∃ s, HoldsAfter config f a b j s ∧ (s.move config).1 = .goldenSection

omit [IsStrictOrderedRing K] in
/-- The first golden-section step and the one after it are set aside, and with them at most one
golden-section step more. -/
theorem GoldenSections.split {n k l : Nat} (h : GoldenSections config f a b (n + 2) k l) :
    ∃ j, k ≤ j ∧ j + 2 ≤ l ∧ GoldenSections config f a b n (j + 2) l ∧
      ∃ s, HoldsAfter config f a b j s ∧ (s.move config).1 = .goldenSection := by
  obtain ⟨J, within, many, sections⟩ := h
  have nonempty : J.Nonempty := Finset.card_pos.mp (by omega)
  let j := J.min' nonempty
  have first : j ∈ J := J.min'_mem nonempty
  obtain ⟨after, before⟩ := Finset.mem_Ico.mp (within first)
  have later : J ⊆ Finset.Ico j l := fun i mem =>
    Finset.mem_Ico.mpr ⟨J.min'_le i mem, (Finset.mem_Ico.mp (within mem)).2⟩
  have few := Finset.card_le_card later
  rw [Nat.card_Ico] at few
  refine ⟨j, after, by omega, ⟨J.filter (j + 2 ≤ ·), ?_, ?_, ?_⟩, sections j first⟩
  · intro i mem
    obtain ⟨mem, far⟩ := Finset.mem_filter.mp mem
    exact Finset.mem_Ico.mpr ⟨far, (Finset.mem_Ico.mp (within mem)).2⟩
  · have covered : J ⊆ insert j (insert (j + 1) (J.filter (j + 2 ≤ ·))) := by
      intro i mem
      have least := J.min'_le i mem
      simp only [Finset.mem_insert, Finset.mem_filter]
      by_cases far : j + 2 ≤ i
      · exact .inr (.inr ⟨mem, far⟩)
      · omega
    have := (Finset.card_le_card covered).trans (Finset.card_insert_le _ _)
    have := Finset.card_insert_le (j + 1) (J.filter (j + 2 ≤ ·))
    omega
  · exact fun i mem => sections i (Finset.mem_filter.mp mem).1

/-- Every second golden-section step takes off the square of the golden section, whatever the steps
between do.  By induction on the pairs, from the first one on. -/
theorem Reaches.stretch (golden : 1 / 3 ≤ (ExactConstants.golden : K)) {n l : Nat}
    (from_k : Reaches config f a b k trace s) (to_l : Reaches config f a b l trace' t)
    (le : k ≤ l) (sections : GoldenSections config f a b (2 * n) k l) :
    t.1.width ≤ (1 - ExactConstants.golden ^ 2) ^ n * s.1.width := by
  have golden_pos : 0 < (ExactConstants.golden : K) := ExactConstants.golden_pos
  have golden_lt : (ExactConstants.golden : K) < 1 / 2 := ExactConstants.golden_lt_half
  have rate : 0 ≤ 1 - (ExactConstants.golden : K) ^ 2 := by nlinarith
  induction n generalizing k trace s with
  | zero =>
      rw [pow_zero, one_mul]
      exact from_k.width_mono golden to_l le
  | succ n ih =>
      obtain ⟨j, after, before, rest, _, ⟨_, u, at_j, rfl⟩, kind⟩ := sections.split
      obtain ⟨_, v, two_on⟩ := Scheme.Reaches.earlier to_l before
      have first : u.1.width ≤ s.1.width := from_k.width_mono golden at_j after
      calc t.1.width ≤ (1 - ExactConstants.golden ^ 2) ^ n * v.1.width := ih two_on before rest
        _ ≤ (1 - ExactConstants.golden ^ 2) ^ n * ((1 - ExactConstants.golden ^ 2) * u.1.width) :=
            mul_le_mul_of_nonneg_left (Reaches.two_steps golden at_j kind two_on)
              (pow_nonneg rate n)
        _ = (1 - ExactConstants.golden ^ 2) ^ (n + 1) * u.1.width := by ring
        _ ≤ (1 - ExactConstants.golden ^ 2) ^ (n + 1) * s.1.width :=
            mul_le_mul_of_nonneg_left first (pow_nonneg rate _)

theorem Reaches.halves (golden : 19 / 50 ≤ (ExactConstants.golden : K)) {l : Nat}
    (from_k : Reaches config f a b k trace s) (to_l : Reaches config f a b l trace' t)
    (sections : GoldenSections config f a b 10 k l) : 2 * t.1.width ≤ s.1.width := by
  have golden_lt : (ExactConstants.golden : K) < 1 / 2 := ExactConstants.golden_lt_half
  have le : k ≤ l := by
    obtain ⟨j, after, before, -⟩ := sections.split
    omega
  have square : (19 / 50 : K) ^ 2 ≤ ExactConstants.golden ^ 2 :=
    pow_le_pow_left₀ (by norm_num) golden 2
  have rate : 0 ≤ 1 - (ExactConstants.golden : K) ^ 2 := by nlinarith
  -- four pairs would not be enough
  have half : (1 - (ExactConstants.golden : K) ^ 2) ^ 5 ≤ 1 / 2 :=
    (pow_le_pow_left₀ rate (sub_le_sub_left square 1) 5).trans (by norm_num)
  have stretch := from_k.stretch (n := 5) (by linarith) to_l le sections
  have := mul_le_mul_of_nonneg_right half from_k.width_nonneg
  linarith

omit [IsStrictOrderedRing K] in
theorem GoldenSections.of_goldenOnly (only : config.bisectionOnly = true)
    (h : Reaches config f a b (k + m) trace t) : GoldenSections config f a b m k (k + m) := by
  refine ⟨Finset.Ico k (k + m), subset_rfl, ?_, fun j mem => ?_⟩
  · rw [Nat.card_Ico, Nat.add_sub_cancel_left]
  · obtain ⟨_, s, at_j⟩ := Scheme.Reaches.earlier h (Finset.mem_Ico.mp mem).2.le
    refine ⟨s.1, ⟨_, s, at_j, rfl⟩, ?_⟩
    rw [Interval.move_of_goldenOnly only]

omit [IsStrictOrderedRing K] in
theorem opens_of_total (distinct : a ≠ b) (valid : config.validate = .ok ())
    (total : ∀ k x, ∃ y, f k x = .ok y) : ∃ p, Opens config f a b p := by
  obtain ⟨p, first⟩ := ScalarFunction.gives_of_total total 1 (entry a b)
  exact ⟨p, rfl, rfl, beq_exact_false distinct, valid, first⟩

/-- A search succeeds if its budget brings the interval down to two thirds of the tolerance. -/
theorem ok_of_narrow (distinct : a ≠ b) (valid : config.validate = .ok ())
    (total : ∀ k x, ∃ y, f k x = .ok y)
    (narrow : ∀ trace t, Reaches config f a b config.maxIterations trace t →
      t.1.width ≤ 2 * (config.tolerance / 3)) : ∃ r, (search config f a b).outcome = .ok r := by
  obtain ⟨p, opens⟩ := opens_of_total distinct valid total
  rcases Scheme.ok_or_exhausted opens.search_eq opens.starts
    (ScalarFunction.gives_of_total total) with ok | ⟨trace, t, reaches, unsettled⟩
  · exact ok
  · have wide := Interval.wide_of_unsettled unsettled (Reaches.inside reaches).1
    exact absurd wide (not_lt_of_ge (narrow trace t reaches))

/-- Stretches that halve the interval bring it down to a third of the tolerance. -/
theorem ok_of_sections {N : Nat} (golden : 19 / 50 ≤ (ExactConstants.golden : K))
    (distinct : a ≠ b) (valid : config.validate = .ok ()) (total : ∀ k x, ∃ y, f k x = .ok y)
    (scale : 3 * |b - a| ≤ 2 ^ N * config.tolerance)
    (sections : ∀ k t, HoldsAfter config f a b (k + m) t →
      GoldenSections config f a b 10 k (k + m))
    (budget : m * N ≤ config.maxIterations) : ∃ r, (search config f a b).outcome = .ok r := by
  obtain ⟨tolerance, -⟩ := SearchConfig.bounds_of_valid valid
  refine ok_of_narrow distinct valid total fun trace t reaches => ?_
  obtain ⟨_, s, before⟩ := Scheme.Reaches.earlier reaches budget
  have halved : 2 ^ N * s.1.width ≤ |b - a| :=
    Scheme.Reaches.width_le_of_halves (w := Interval.width) before
      (fun _ _ start => (Reaches.begins start).trans_le (ends_width a b).le)
      fun i _ _ _ _ from_i to_l =>
        Reaches.halves golden from_i to_l (sections i _ ⟨_, _, to_l, rfl⟩)
  have scaled : 2 ^ N * s.1.width ≤ 2 ^ N * (config.tolerance / 3) := by linarith
  have narrow : s.1.width ≤ config.tolerance / 3 := le_of_mul_le_mul_left scaled (by positivity)
  have narrower : t.1.width ≤ s.1.width :=
    Reaches.width_mono (by linarith) before reaches budget
  linarith

/-- A search shrinks its interval geometrically in the number of its golden-section steps.  Ten of
them halve the interval, whatever the steps between, and every step takes a third of the tolerance
off it.  If ten are among any `m` steps in a row, a budget of `m` times the logarithm of the
interval is enough; if parabolic steps are not allowed, ten times. -/
theorem search_shrinks {N : Nat} (golden : 19 / 50 ≤ (ExactConstants.golden : K))
    (distinct : a ≠ b) (valid : config.validate = .ok ()) (total : ∀ k x, ∃ y, f k x = .ok y)
    (scale : 3 * |b - a| ≤ 2 ^ N * config.tolerance) :
    (∀ k l s t, HoldsAfter config f a b k s → HoldsAfter config f a b l t →
      GoldenSections config f a b 10 k l → 2 * (t.b - t.a) ≤ s.b - s.a) ∧
    (∀ k t, HoldsAfter config f a b k t → t.b - t.a + k * (config.tolerance / 3) ≤ |b - a|) ∧
    (3 * |b - a| ≤ config.maxIterations * config.tolerance →
      ∃ r, (search config f a b).outcome = .ok r) ∧
    (∀ m, (∀ k t, HoldsAfter config f a b (k + m) t → GoldenSections config f a b 10 k (k + m)) →
      m * N ≤ config.maxIterations → ∃ r, (search config f a b).outcome = .ok r) ∧
    (config.bisectionOnly = true → 10 * N ≤ config.maxIterations →
      ∃ r, (search config f a b).outcome = .ok r) := by
  obtain ⟨tolerance, -⟩ := SearchConfig.bounds_of_valid valid
  have third : 1 / 3 ≤ (ExactConstants.golden : K) := by linarith
  refine ⟨?_, ?_, ?_, ?_, ?_⟩
  · rintro k l _ _ ⟨_, s, from_k, rfl⟩ ⟨_, t, to_l, rfl⟩ sections
    exact Reaches.halves golden from_k to_l sections
  · rintro k _ ⟨_, t, reaches, rfl⟩
    exact Reaches.width_le third reaches
  · intro budget
    refine ok_of_narrow distinct valid total fun trace t reaches => ?_
    have := Reaches.width_le third reaches
    linarith
  · intro m sections budget
    exact ok_of_sections golden distinct valid total scale sections budget
  · intro only budget
    refine ok_of_sections golden distinct valid total scale ?_ budget
    rintro k _ ⟨_, _, reaches, _⟩
    exact .of_goldenOnly only reaches

/-- Falling to its minimum ten times as fast as it rises after it. -/
def lopsided : ScalarFunction ℚ := fun _ x => .ok (max (x - 9 / 10) (10 * (9 / 10 - x)))

/-- Ten of the first eleven steps of this search go by the golden section, and ten of any thirteen
in a row. -/
theorem search_shrinks_lopsided :
    (∃ s t, HoldsAfter ⟨1 / 4096, 0, 182, false⟩ lopsided 0 1 0 s ∧
      HoldsAfter ⟨1 / 4096, 0, 182, false⟩ lopsided 0 1 11 t ∧ 2 * (t.b - t.a) ≤ s.b - s.a) ∧
    (∃ r, (search ⟨1 / 4096, 0, 182, false⟩ lopsided 0 1).outcome = .ok r) ∧
    ∃ r, (search ⟨1 / 4096, 0, 140, true⟩ lopsided 0 1).outcome = .ok r := by
  have valid : SearchConfig.validate ⟨(1 / 4096 : ℚ), 0, 182, false⟩ = .ok () := by
    decide +kernel
  have valid' : SearchConfig.validate ⟨(1 / 4096 : ℚ), 0, 140, true⟩ = .ok () := by
    decide +kernel
  have total : ∀ k x, ∃ y, lopsided k x = .ok y := fun _ _ => ⟨_, rfl⟩
  have golden : 19 / 50 ≤ (ExactConstants.golden : ℚ) := by decide +kernel
  let first : Sample ℚ := ⟨entry 0 1, max (entry 0 1 - 9 / 10) (10 * (9 / 10 - entry 0 1))⟩
  have opens : Opens ⟨1 / 4096, 0, 182, false⟩ lopsided 0 1 first :=
    ⟨rfl, rfl, by decide +kernel, valid, ⟨rfl, rfl, rfl⟩⟩
  let loop := (scheme ⟨(1 / 4096 : ℚ), 0, 182, false⟩).loop lopsided 182
  let J : Finset ℕ := {0, 1, 2, 3, 4, 6, 7, 8, 9, 10, 13, 14, 15, 16}
  have taken : ∀ j ∈ J, j ≤ 182 ∧ (loop.stateAfter j (opening 0 1 first)).any (fun t =>
      (t.1.move ⟨1 / 4096, 0, 182, false⟩).1 = .goldenSection) = true := by decide +kernel
  have sections : ∀ k l, 10 ≤ (Finset.Ico k l ∩ J).card →
      GoldenSections ⟨1 / 4096, 0, 182, false⟩ lopsided 0 1 10 k l := by
    intro k l many
    refine ⟨_, Finset.inter_subset_left, many, fun j mem => ?_⟩
    obtain ⟨le, taken⟩ := taken j (Finset.mem_of_mem_inter_right mem)
    obtain ⟨u, at_u, kind⟩ := (Option.any_eq_true _ _).mp taken
    obtain ⟨_, reaches⟩ := Scheme.reaches_of_stateAfter opens.starts le at_u
    exact ⟨_, ⟨_, u, reaches, rfl⟩, of_decide_eq_true kind⟩
  have settled : (loop.stateAfter 17 (opening 0 1 first)).any
      (fun t => t.1.settled ⟨1 / 4096, 0, 182, false⟩) = true := by decide +kernel
  obtain ⟨t, at_t, settled⟩ := (Option.any_eq_true _ _).mp settled
  obtain ⟨_, to_t⟩ := Scheme.reaches_of_stateAfter opens.starts (by decide : 17 ≤ 182) at_t
  obtain ⟨_, s, from_start⟩ := Scheme.Reaches.earlier to_t (Nat.zero_le 17)
  obtain ⟨_, u, to_eleven⟩ := Scheme.Reaches.earlier to_t (by decide : 11 ≤ 17)
  have shrinks := search_shrinks (N := 14) golden zero_ne_one valid total (by norm_num)
  refine ⟨⟨_, _, ⟨_, s, from_start, rfl⟩, ⟨_, u, to_eleven, rfl⟩, shrinks.1 0 11 _ _
    ⟨_, s, from_start, rfl⟩ ⟨_, u, to_eleven, rfl⟩ (sections 0 11 (by decide))⟩, ?_, ?_⟩
  · refine shrinks.2.2.2.1 13 (fun k _ ⟨_, _, reaches, _⟩ => ?_) (by decide)
    have ended : k + 13 ≤ 17 := Scheme.Reaches.le_of_settled to_t reaches
      (fun _ _ _ _ => Starts.unique) (of_decide_eq_true settled)
    have early : k < 5 := by omega
    refine sections k (k + 13) ?_
    interval_cases k <;> decide
  · exact (search_shrinks (N := 14) golden zero_ne_one valid' total (by norm_num)).2.2.2.2 rfl
      (by decide)

namespace Interval

variable {s : Interval K} {δ r : K}

theorem unsettled_of_wide (wide : 4 * s.accuracy config < s.width) : ¬ s.settled config := by
  have := abs_nonneg (s.best.x - s.midpoint)
  unfold width at wide
  rw [settled_iff]
  linarith

theorem target_of_long (long : s.accuracy config ≤ |(s.move config).2|) :
    s.target config = s.best.x + (s.move config).2 := by
  show s.best.x + lengthen (s.accuracy config) (s.move config).2 = _
  rw [lengthen_of_long long]

/-- A search that has met only two points yet goes by the golden section. -/
theorem move_of_two (same : s.third = s.second) :
    s.move config = (.goldenSection, s.goldenStep) := by
  have flat : s.vertexDenominator = 0 := by
    rw [vertexDenominator, same, sub_self]
  unfold move propose nextStep
  rw [parabolicStep_of_flat flat, ite_self, ite_self]

/-- The vertex of a parabola through three samples is at distance `δ` from the best one.  If the
step there is allowed, it is taken. -/
theorem parabolicStep_of_vertex (worse : s.best.y ≠ s.second.y) (apart : s.best.x ≠ s.third.x)
    (apart' : s.second.x ≠ s.third.x)
    (vertex : (s.third.y - s.best.y) *
        ((s.best.x - s.second.x) * (s.best.x - s.second.x + (δ + δ))) =
      (s.second.y - s.best.y) * ((s.best.x - s.third.x) * (s.best.x - s.third.x + (δ + δ))))
    (allowed : s.Allows s.goldenStep r δ) : s.parabolicStep s.goldenStep r = some δ := by
  have quotient : s.vertexNumerator = -(2 * s.vertexDenominator) * δ := by
    unfold vertexNumerator vertexDenominator
    linear_combination vertex
  have curved : s.vertexDenominator ≠ 0 := by
    intro flat
    have product : (s.second.x - s.third.x) *
        ((s.best.x - s.third.x) * (s.best.y - s.second.y)) = 0 := by
      unfold vertexNumerator at quotient
      unfold vertexDenominator at flat quotient
      linear_combination quotient - (s.best.x - s.second.x + (δ + δ)) * flat
    exact mul_ne_zero (sub_ne_zero.mpr apart')
      (mul_ne_zero (sub_ne_zero.mpr apart) (sub_ne_zero.mpr worse)) product
  refine parabolicStep_eq_some_iff.mpr ⟨curved, ?_, allowed⟩
  rw [toVertex, ← two_mul, quotient, neg_mul, neg_div, neg_neg,
    mul_div_cancel_left₀ _ (mul_ne_zero two_ne_zero curved)]

theorem target_of_parabolic (allowed : config.bisectionOnly = false)
    (apart : s.accuracy config ≤ |s.best.x - s.second.x|) (long : s.accuracy config ≤ |δ|)
    (step : s.parabolicStep s.goldenStep (s.accuracy config) = some δ) :
    s.target config = s.best.x + δ := by
  have move : s.move config = (.parabolic, δ) := by
    unfold Interval.move propose
    rw [allowed]
    exact nextStep_eq_parabolic_iff.mpr ⟨not_lt_of_ge apart, step⟩
  have moved : (s.move config).2 = δ := congrArg Prod.snd move
  rw [← moved] at long
  rw [target_of_long long, moved]

end Interval

/-- The value at `v` that puts the vertex of the parabola through it and two samples at distance
`δ` from the first of them. -/
def steer (δ : K) (x w : Sample K) (v : K) : K :=
  x.y + (w.y - x.y) * ((x.x - v) * (x.x - v + (δ + δ))) / ((x.x - w.x) * (x.x - w.x + (δ + δ)))

omit [ExactConstants K] in
theorem steer_vertex {δ v : K} {x w : Sample K} (up : w.x < x.x) (forward : 0 < δ) :
    (steer δ x w v - x.y) * ((x.x - w.x) * (x.x - w.x + (δ + δ))) =
      (w.y - x.y) * ((x.x - v) * (x.x - v + (δ + δ))) := by
  have gap : 0 < x.x - w.x := sub_pos.mpr up
  have nonzero : (x.x - w.x) * (x.x - w.x + (δ + δ)) ≠ 0 := by positivity
  rw [steer, add_sub_cancel_left, div_mul_cancel₀ _ nonzero]

omit [ExactConstants K] in
theorem lt_steer {δ v : K} {x w : Sample K} (up : w.x < x.x) (before : v < w.x)
    (forward : 0 < δ) (falls : x.y < w.y) : w.y < steer δ x w v := by
  have gap : 0 < x.x - w.x := sub_pos.mpr up
  have positive : 0 < (x.x - w.x) * (x.x - w.x + (δ + δ)) := by positivity
  have farther : (x.x - w.x) * (x.x - w.x + (δ + δ)) < (x.x - v) * (x.x - v + (δ + δ)) :=
    mul_lt_mul'' (by linarith) (by linarith) gap.le (by linarith)
  have more := mul_lt_mul_of_pos_left farther (sub_pos.mpr falls)
  rw [steer, ← sub_lt_iff_lt_add', lt_div_iff₀ positive]
  exact more

namespace Creeping

open ExactConstants (golden)

/-- The search is to go up in small steps and to find smaller and smaller values. -/
noncomputable def step (n : ℕ) : Sample ℝ := ⟨golden + golden + n / 2048, (3 / 5) ^ n⟩

/-- The last trial before the steps. -/
noncomputable def start : Sample ℝ :=
  ⟨1 - golden, steer (1 / 2048) (step 1) (step 0) (1 - golden)⟩

noncomputable def trial : ℕ → Sample ℝ
  | 0 => ⟨golden, steer (1 / 2048) (step 0) start golden⟩
  | 1 => start
  | n + 2 => step n

/-- A function that has the values of the trials. -/
noncomputable def values (x : ℝ) : ℝ :=
  if x < (trial 1).x then (trial 0).y
  else if x < (trial 2).x then (trial 1).y
  else (step ⌊2048 * (x - (trial 2).x)⌋₊).y

theorem trial_two : (trial 2).x = golden + golden := by
  show golden + golden + ((0 : ℕ) : ℝ) / 2048 = _
  simp

theorem forward (n : ℕ) : (trial n).x + 1 / 2048 ≤ (trial (n + 1)).x := by
  obtain ⟨above, below⟩ := golden_bounds
  match n with
  | 0 =>
      show golden + 1 / 2048 ≤ 1 - golden
      linarith
  | 1 =>
      rw [trial_two]
      show 1 - golden + 1 / 2048 ≤ golden + golden
      linarith
  | n + 2 =>
      show golden + golden + n / 2048 + 1 / 2048 ≤ golden + golden + ((n + 1 : ℕ) : ℝ) / 2048
      push_cast
      linarith

theorem forward_lt (n : ℕ) : (trial n).x < (trial (n + 1)).x := by
  have := forward n
  linarith

theorem next (n : ℕ) : (trial (n + 3)).x = (trial (n + 2)).x + 1 / 2048 := by
  show golden + golden + ((n + 1 : ℕ) : ℝ) / 2048 = golden + golden + n / 2048 + 1 / 2048
  push_cast
  ring

theorem falls (n : ℕ) : (trial (n + 1)).y < (trial n).y := by
  have step_falls (n : ℕ) : (step (n + 1)).y < (step n).y :=
    pow_lt_pow_right_of_lt_one₀ (by norm_num) (by norm_num) n.lt_succ_self
  have second : (trial 2).y < (trial 1).y :=
    lt_steer (forward_lt 2) (forward_lt 1) (by norm_num) (step_falls 0)
  match n with
  | 0 => exact lt_steer (forward_lt 1) (forward_lt 0) (by norm_num) second
  | 1 => exact second
  | n + 2 => exact step_falls n

theorem vertex (n : ℕ) :
    ((trial n).y - (trial (n + 2)).y) *
        (((trial (n + 2)).x - (trial (n + 1)).x) *
          ((trial (n + 2)).x - (trial (n + 1)).x + (1 / 2048 + 1 / 2048))) =
      ((trial (n + 1)).y - (trial (n + 2)).y) *
        (((trial (n + 2)).x - (trial n).x) *
          ((trial (n + 2)).x - (trial n).x + (1 / 2048 + 1 / 2048))) := by
  match n with
  | 0 => exact steer_vertex (forward_lt 1) (by norm_num)
  | 1 => exact steer_vertex (forward_lt 2) (by norm_num)
  | n + 2 =>
      rw [next (n + 1), next n]
      show ((3 / 5) ^ n - (3 / 5) ^ (n + 2)) * _ = ((3 / 5) ^ (n + 1) - (3 / 5) ^ (n + 2)) * _
      ring

theorem values_trial (n : ℕ) : values (trial n).x = (trial n).y := by
  unfold values
  match n with
  | 0 => rw [if_pos (forward_lt 0)]
  | 1 => rw [if_neg (lt_irrefl _), if_pos (forward_lt 1)]
  | n + 2 =>
      have later : (trial (n + 2)).x - (trial 2).x = n / 2048 := by
        rw [trial_two]
        exact add_sub_cancel_left _ _
      have after : (trial 2).x ≤ (trial (n + 2)).x := by
        have : (0 : ℝ) ≤ n / 2048 := by positivity
        linarith
      have second := forward_lt 1
      rw [if_neg (not_lt_of_ge (second.le.trans after)), if_neg (not_lt_of_ge after), later,
        mul_div_cancel₀ _ (by norm_num), Nat.floor_natCast]
      rfl

theorem trial_mem {n : Nat} (le : n ≤ 60) : (trial n).x ∈ Set.Icc 0 (4 / 5) := by
  obtain ⟨above, below⟩ := golden_bounds
  match n with
  | 0 =>
      show golden ∈ Set.Icc (0 : ℝ) (4 / 5)
      exact ⟨by linarith, by linarith⟩
  | 1 =>
      show 1 - golden ∈ Set.Icc (0 : ℝ) (4 / 5)
      exact ⟨by linarith, by linarith⟩
  | n + 2 =>
      have count : (n : ℝ) ≤ 58 := by exact_mod_cast Nat.le_of_add_le_add_right le
      have nonneg : (0 : ℝ) ≤ n := n.cast_nonneg
      show golden + golden + (n : ℝ) / 2048 ∈ Set.Icc (0 : ℝ) (4 / 5)
      exact ⟨by linarith, by linarith⟩

/-- The intervals of the search. -/
noncomputable def interval : ℕ → Interval ℝ
  | 0 => .around 0 1 (trial 0)
  | 1 => ⟨(trial 0).x, 1, trial 1, trial 0, trial 0⟩
  | n + 2 => ⟨(trial (n + 1)).x, 1, trial (n + 2), trial (n + 1), trial n⟩

noncomputable def settings : SearchConfig ℝ := ⟨1 / 1024, 0, 59, false⟩

theorem valid : settings.validate = .ok () := by
  refine SearchConfig.validate_ok_iff.mpr ⟨⟨?_, rfl⟩, ⟨?_, rfl⟩, by decide⟩
  · rw [literal_zero]
    show (0 : ℝ) < 1 / 1024
    norm_num
  · rw [literal_zero]
    exact le_refl _

theorem accuracy_lt {s : Interval ℝ} (inside : s.best.x ∈ Set.Icc 0 (4 / 5)) :
    s.accuracy settings < 1 / 2048 := by
  rw [Interval.accuracy_exact, abs_of_nonneg inside.1]
  show 1 / 67108864 * s.best.x + 1 / 1024 / 3 < 1 / 2048
  linarith [inside.2]

theorem golden_target {s : Interval ℝ} (inside : s.best.x ∈ Set.Icc 0 (4 / 5)) (last : s.b = 1)
    (left : 2 * s.best.x < s.a + 1) (two : s.third = s.second) :
    s.target settings = s.best.x + golden * (1 - s.best.x) := by
  obtain ⟨above, -⟩ := golden_bounds
  have accuracy := accuracy_lt inside
  have lower : s.best.x < s.midpoint := by
    rw [Interval.midpoint_exact, last]
    linarith
  have step : (s.move settings).2 = golden * (1 - s.best.x) := by
    rw [Interval.move_of_two two]
    show s.goldenStep = _
    rw [Interval.goldenStep_exact, Interval.far, if_pos lower, last]
  have long : 1 / 2048 ≤ golden * (1 - s.best.x) := by
    have : 19 / 50 * (1 / 5) ≤ golden * (1 - s.best.x) :=
      mul_le_mul above.le (by linarith [inside.2]) (by norm_num) (by linarith)
    linarith
  rw [Interval.target_of_long, step]
  rw [step]
  exact accuracy.le.trans (long.trans (le_abs_self _))

theorem best_interval (k : Nat) : (interval k).best = trial k := by
  match k with
  | 0 => rfl
  | 1 => rfl
  | k + 2 => rfl

/-- The parabola through the last three trials leads to the next one. -/
theorem vertex_target {n : Nat} (le : n + 2 ≤ 60) :
    (interval (n + 2)).target settings = (trial (n + 3)).x := by
  obtain ⟨above, -⟩ := golden_bounds
  have inside := trial_mem le
  have accuracy : (interval (n + 2)).accuracy settings < 1 / 2048 := accuracy_lt inside
  have near : (trial (n + 1)).x + 1 / 2048 ≤ (trial (n + 2)).x := forward (n + 1)
  have room : 1 / 5 ≤ 1 - (trial (n + 2)).x := by linarith [inside.2]
  have size : |(interval (n + 2)).goldenStep| =
      golden * max ((trial (n + 2)).x - (trial (n + 1)).x) (1 - (trial (n + 2)).x) := by
    have strictly : (trial (n + 2)).x ∈ Set.Ioo (trial (n + 1)).x 1 :=
      ⟨forward_lt (n + 1), by linarith⟩
    rw [Interval.goldenStep_exact, abs_mul, abs_of_pos (by linarith),
      Interval.abs_far (s := interval (n + 2)) strictly]
    rfl
  have shorter : |(1 / 2048 : ℝ)| < |(interval (n + 2)).goldenStep| := by
    have share : 19 / 50 * (1 / 5) ≤ |(interval (n + 2)).goldenStep| := by
      rw [size]
      exact mul_le_mul above.le (room.trans (le_max_right _ _)) (by norm_num) (by linarith)
    rw [abs_of_pos (by norm_num)]
    linarith
  have apart : 1 / 2048 ≤ |(trial (n + 2)).x - (trial (n + 1)).x| :=
    (le_sub_iff_add_le'.mpr near).trans (le_abs_self _)
  have parabolic : (interval (n + 2)).parabolicStep (interval (n + 2)).goldenStep
      ((interval (n + 2)).accuracy settings) = some (1 / 2048) := by
    refine Interval.parabolicStep_of_vertex (falls (n + 1)).ne ?_ (forward_lt n).ne' (vertex n)
      ⟨shorter, ?_, ?_⟩
    · exact ((forward_lt n).trans (forward_lt (n + 1))).ne'
    · show (trial (n + 1)).x - (trial (n + 2)).x + _ < _
      linarith
    · show _ < 1 - (trial (n + 2)).x - _
      linarith
  rw [next n]
  exact Interval.target_of_parabolic rfl (accuracy.le.trans apart)
    (accuracy.le.trans (le_abs_self _)) parabolic

theorem target_interval {k : Nat} (le : k ≤ 59) :
    (interval k).target settings = (trial (k + 1)).x := by
  obtain ⟨above, below⟩ := golden_bounds
  have inside := trial_mem (le.trans (by decide : 59 ≤ 60))
  rw [← best_interval] at inside
  match k with
  | 0 =>
      rw [golden_target inside rfl ?_ rfl]
      · show golden + golden * (1 - golden) = 1 - golden
        linear_combination -golden_sq
      · show 2 * golden < (0 : ℝ) + 1
        linarith
  | 1 =>
      rw [golden_target inside rfl ?_ rfl, trial_two]
      · show 1 - golden + golden * (1 - (1 - golden)) = golden + golden
        linear_combination golden_sq
      · show 2 * (1 - golden) < golden + 1
        linarith
  | n + 2 => exact vertex_target (by omega)

theorem update_interval (k : Nat) : (interval k).update (trial (k + 1)) = interval (k + 1) := by
  have lower := (falls k).le
  have up := forward_lt k
  rw [← best_interval k] at lower up
  rw [Interval.update_up lower up]
  match k with
  | 0 => rfl
  | 1 => rfl
  | k + 2 => rfl

theorem unsettled {k : Nat} (le : k ≤ 60) : ¬ (interval k).settled settings := by
  have inside := trial_mem le
  rw [← best_interval] at inside
  have accuracy := accuracy_lt inside
  have wide : 1 / 5 ≤ (interval k).width := by
    match k with
    | 0 =>
        show 1 / 5 ≤ (1 : ℝ) - 0
        norm_num
    | 1 =>
        show 1 / 5 ≤ 1 - (trial 0).x
        linarith [(trial_mem (by decide : 0 ≤ 60)).2]
    | n + 2 =>
        show 1 / 5 ≤ 1 - (trial (n + 1)).x
        linarith [(trial_mem (by omega : n + 1 ≤ 60)).2]
  exact Interval.unsettled_of_wide (by linarith)

/-- The search goes through these intervals. -/
theorem holdsAfter {k : Nat} (le : k ≤ 59) :
    HoldsAfter settings (fun _ x => .ok (values x)) 0 1 k (interval k) := by
  induction k with
  | zero =>
      have at_entry : (trial 0).x = entry 0 1 := by
        unfold entry ends
        rw [if_pos zero_lt_one]
        show golden = 0 + golden * (1 - 0)
        ring
      have answer : values (entry 0 1) = (trial 0).y := by rw [← at_entry, values_trial]
      have opens : Opens settings (fun _ x => .ok (values x)) 0 1 (trial 0) :=
        ⟨rfl, rfl, beq_exact_false zero_ne_one, valid, at_entry, congrArg Except.ok answer, rfl⟩
      have begins : (opening 0 1 (trial 0)).1 = interval 0 := by
        unfold opening ends
        rw [if_pos zero_lt_one]
        rfl
      exact ⟨_, _, opens.reaches, begins.symm⟩
  | succ k ih =>
      obtain ⟨_, t, reaches, same⟩ := ih (by omega)
      have at_target := target_interval (k := k) (by omega)
      have more := unsettled (k := k) (by omega)
      rw [same] at at_target more
      have answer : values (t.1.target settings) = (trial (k + 1)).y := by
        rw [at_target, values_trial]
      obtain ⟨_, further⟩ := Scheme.Reaches.next reaches le more
        ⟨at_target.symm, congrArg Except.ok answer, rfl⟩
      refine ⟨_, _, further, ?_⟩
      show _ = t.1.update (trial (k + 1))
      rw [← same, update_interval]

end Creeping

/-- With a tolerance of a 1024th of the interval, fifty-six steps do not halve what three steps
leave of it. -/
theorem creeping_not_halved :
    ⌈Real.logb 2 (3 * |1 - 0| / (1 / 1024))⌉ = 12 ∧
      ∃ s t, HoldsAfter ⟨1 / 1024, 0, 59, false⟩ (fun _ x => .ok (Creeping.values x)) 0 1 3 s ∧
        HoldsAfter ⟨1 / 1024, 0, 59, false⟩ (fun _ x => .ok (Creeping.values x)) 0 1
          (3 + 4 * (12 + 2)) t ∧
        s.b - s.a < 2 * (t.b - t.a) := by
  constructor
  · rw [Int.ceil_eq_iff, Real.lt_logb_iff_rpow_lt (by norm_num) (by norm_num),
      Real.logb_le_iff_le_rpow (by norm_num) (by norm_num)]
    norm_num
  · refine ⟨_, _, Creeping.holdsAfter (by decide), Creeping.holdsAfter (by decide), ?_⟩
    obtain ⟨-, below⟩ := golden_bounds
    show 1 - (ExactConstants.golden + ExactConstants.golden + ((0 : ℕ) : ℝ) / 2048) <
      2 * (1 - (ExactConstants.golden + ExactConstants.golden + ((56 : ℕ) : ℝ) / 2048))
    norm_num
    linarith

end Nonlinear.Minimum
