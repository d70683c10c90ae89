import Nonlinear.Proofs.Config
import Nonlinear.Proofs.FloatingPoint.Order
import Nonlinear.Proofs.Root.Course

/-! # The change of sign that a root search carries

Every bracket of a search is made of samples taken in that search, and its best estimate and
counterpoint have values of opposite signs, unless the best value is a zero.  Only comparisons
enter, so this holds for rounded arithmetic as it stands.
-/

namespace Nonlinear.Root

open Scalar

variable {α : Type} [Scalar α]

/-- The samples of the bracket occur in the trace, and the sign changes between its ends. -/
structure Straddles (trace : List (SearchEntry α (Event α))) (s : Bracket α) : Prop where
  taken_previous : s.previous.Taken trace
  taken_best : s.best.Taken trace
  taken_counter : s.counter.Taken trace
  finite_best : isFinite s.best.y = true
  finite_counter : isFinite s.counter.y = true
  signs : (s.best.y == 0.0) = true ∨ Opposed s.best.y s.counter.y

namespace Straddles

variable {trace more : List (SearchEntry α (Event α))} {s : Bracket α} {p : Sample α}

theorem of_prefix (h : Straddles trace s) (le : trace <+: more) : Straddles more s :=
  ⟨h.taken_previous.of_prefix le, h.taken_best.of_prefix le, h.taken_counter.of_prefix le,
    h.finite_best, h.finite_counter, h.signs⟩

variable [LawfulScalar α]

theorem keepBest (h : Straddles trace s) : Straddles trace s.keepBest := by
  unfold Bracket.keepBest
  split
  · rename_i smaller
    refine ⟨h.taken_best, h.taken_counter, h.taken_best, h.finite_counter, h.finite_best, .inr ?_⟩
    rcases h.signs with zero | opposed
    · -- nothing is smaller than a zero
      have counter_nonneg : 0.0 ≤ magnitude s.counter.y :=
        LawfulScalar.magnitude_nonneg (LawfulScalar.isNaN_of_isFinite h.finite_counter)
      have best_le : magnitude s.best.y ≤ 0.0 :=
        magnitude_le_of_beq_zero zero (LawfulScalar.le_refl isNaN_zero)
      exact absurd smaller
        (not_lt_of_le (LawfulScalar.le_trans best_le counter_nonneg))
    · exact opposed.symm
  · exact h

theorem best_le_counter (h : Straddles trace s) :
    magnitude s.keepBest.best.y ≤ magnitude s.keepBest.counter.y := by
  unfold Bracket.keepBest
  split
  · exact le_of_lt ‹_›
  · refine le_of_not_lt ?_ ?_ ‹_›
    · rw [LawfulScalar.isNaN_magnitude]
      exact LawfulScalar.isNaN_of_isFinite h.finite_counter
    · rw [LawfulScalar.isNaN_magnitude]
      exact LawfulScalar.isNaN_of_isFinite h.finite_best

theorem advance (h : Straddles trace s) (nonzero : ¬ (s.best.y == 0.0) = true)
    (finite : isFinite p.y = true) (taken : p.Taken trace) :
    Straddles trace (s.advance p) := by
  have opposed : Opposed s.best.y s.counter.y := h.signs.resolve_left nonzero
  unfold Bracket.advance
  split
  · rename_i same
    refine ⟨h.taken_best, taken, h.taken_best, finite, h.finite_best, .inr ?_⟩
    rcases same with ⟨p_pos, counter_pos⟩ | ⟨p_neg, counter_neg⟩
    · rcases opposed with ⟨best_neg, _⟩ | ⟨_, counter_neg⟩
      · exact .inr ⟨p_pos, best_neg⟩
      · exact absurd counter_neg (not_lt_of_lt counter_pos)
    · rcases opposed with ⟨_, counter_pos⟩ | ⟨best_pos, _⟩
      · exact absurd counter_neg (not_lt_of_lt counter_pos)
      · exact .inl ⟨p_neg, best_pos⟩
  · rename_i differ
    rw [not_or, not_and, not_and] at differ
    refine ⟨h.taken_best, taken, h.taken_counter, finite, h.finite_counter, ?_⟩
    rcases zero_or_neg_or_pos (LawfulScalar.isNaN_of_isFinite finite) with zero | neg | pos
    · exact .inl zero
    · rcases opposed with ⟨_, counter_pos⟩ | ⟨_, counter_neg⟩
      · exact .inr (.inl ⟨neg, counter_pos⟩)
      · exact absurd counter_neg (differ.2 neg)
    · rcases opposed with ⟨_, counter_pos⟩ | ⟨_, counter_neg⟩
      · exact absurd counter_pos (differ.1 pos)
      · exact .inr (.inr ⟨pos, counter_neg⟩)

end Straddles

variable {config : SearchConfig α} {f : ScalarFunction α} {a b : α}

section Lawful

variable [LawfulScalar α]

theorem Opens.straddles {p q : Sample α} (h : Opens config f a b p q) :
    Straddles (openingTrace f a b) (.between p q) := by
  obtain ⟨-, ⟨nonneg, -⟩, -⟩ := SearchConfig.validate_ok_iff.mp h.valid
  exact ⟨h.taken_left, h.taken_right, h.taken_left, h.right.finite, h.left.finite,
    .inr (opposed_of_isNegative nonneg h.left.finite h.right.finite h.far_left h.far_right
      h.signs).symm⟩

theorem Reaches.straddles {k : Nat} {trace : List (SearchEntry α (Event α))}
    {t : Bracket α × Counters} (h : Reaches config f a b k trace t) : Straddles trace t.1 := by
  obtain ⟨-, ⟨nonneg, -⟩, -⟩ := SearchConfig.validate_ok_iff.mp h.valid
  refine Scheme.Reaches.invariant (P := Straddles) ?_ ?_ h
  · rintro _ _ ⟨p, q, opens, rfl, rfl⟩
    exact opens.straddles
  · intro k trace more s p _ holds unsettled gives taken
    have kept := holds.keepBest.of_prefix (List.prefix_append trace more)
    refine kept.advance (fun zero => ?_) gives.finite (List.mem_append_right trace taken)
    exact unsettled (.inr (magnitude_le_of_beq_zero zero nonneg))

/-- Every bracket of a search straddles a change of sign, with the smaller value as the best
one. -/
theorem HoldsAfter.straddles {k : Nat} {s : Bracket α} (h : HoldsAfter config f a b k s) :
    Straddles (search config f a b).trace s ∧ magnitude s.best.y ≤ magnitude s.counter.y := by
  obtain ⟨trace, t, reaches, same⟩ := h
  rw [same]
  exact ⟨reaches.straddles.keepBest.of_prefix reaches.trace_prefix,
    reaches.straddles.best_le_counter⟩

/-- A successful search answers a sample it took.  Its value counts as zero, or the search has
a sample with a value of the opposite sign and no smaller size within the resolution.  Every
bracket on the way is made of samples of the search, the smaller value first, and straddles a
change of sign unless the best value is a zero. -/
theorem search_sound (config : SearchConfig α) (f : ScalarFunction α) (a b : α) :
    (∀ r, (search config f a b).outcome = .ok r →
      isFinite r.value = true ∧ Sample.Taken ⟨r.x, r.value⟩ (search config f a b).trace ∧
        (magnitude r.value ≤ config.functionTolerance ∨
          ∃ c : Sample α, c.Taken (search config f a b).trace ∧ Opposed c.y r.value ∧
            magnitude r.value ≤ magnitude c.y ∧
            magnitude ((c.x - r.x) / 2.0) ≤
              2.0 * epsilon * magnitude r.x + config.tolerance / 2.0)) ∧
    ∀ k s, HoldsAfter config f a b k s →
      s.previous.Taken (search config f a b).trace ∧
        s.best.Taken (search config f a b).trace ∧
        s.counter.Taken (search config f a b).trace ∧
        magnitude s.best.y ≤ magnitude s.counter.y ∧
        ((s.best.y == 0.0) = true ∨ Opposed s.best.y s.counter.y) := by
  constructor
  · intro r ok
    obtain ⟨p, q, sampled, atEnd | opens⟩ := search_ok ok
    · rw [sampled.search_eq]
      rcases atEnd with ⟨⟨x, y⟩ | ⟨x, y⟩, small⟩
      · rw [y] at small
        rw [x, y]
        exact ⟨sampled.left.finite, sampled.taken_left.append_left _, .inl small⟩
      · rw [y] at small
        rw [x, y]
        exact ⟨sampled.right.finite, sampled.taken_right.append_left _, .inl small⟩
    · obtain ⟨k, trace, t, reaches, settled, x, y⟩ :=
        Scheme.reaches_of_ok opens.search_eq opens.starts ok
      obtain ⟨straddles, smaller⟩ := HoldsAfter.straddles ⟨trace, t, reaches, rfl⟩
      rw [x, y]
      refine ⟨straddles.finite_best, straddles.taken_best, ?_⟩
      rcases settled with narrow | small
      · obtain ⟨-, ⟨nonneg, -⟩, -⟩ := SearchConfig.validate_ok_iff.mp opens.valid
        rcases straddles.signs with zero | opposed
        · exact .inl (magnitude_le_of_beq_zero zero nonneg)
        · exact .inr ⟨_, straddles.taken_counter, opposed.symm, smaller, narrow⟩
      · exact .inl small
  · intro k s holds
    obtain ⟨straddles, smaller⟩ := holds.straddles
    exact ⟨straddles.taken_previous, straddles.taken_best, straddles.taken_counter, smaller,
      straddles.signs⟩

end Lawful

/-- A function that jumps from `-1` to `1`. -/
def jump (t : α) : ScalarFunction α := fun _ x => .ok (if x < t then -1.0 else 1.0)

/-- A jump has no zero, so its bracket is narrowed to the resolution, in doubles and in
singles. -/
theorem search_sound_jump :
    (search ⟨2.0, 0.0, 5, false⟩ (jump (1.5 : Float)) 0.0 4.0).outcome =
        .ok ⟨2.0, 1.0, ⟨1, 3, 0⟩⟩ ∧
      (∃ c : Sample Float, Opposed c.y 1.0 ∧
        magnitude ((c.x - 2.0) / 2.0) ≤ 2.0 * epsilon * magnitude 2.0 + 2.0 / 2.0) ∧
      (∃ s, HoldsAfter ⟨2.0, 0.0, 5, false⟩ (jump (1.5 : Float)) 0.0 4.0 0 s ∧
        magnitude s.best.y ≤ magnitude s.counter.y) ∧
      (search ⟨2.0, 0.0, 5, false⟩ (jump (1.5 : Float32)) 0.0 4.0).outcome =
        .ok ⟨2.0, 1.0, ⟨1, 3, 0⟩⟩ ∧
      ∃ c : Sample Float32, Opposed c.y 1.0 ∧
        magnitude ((c.x - 2.0) / 2.0) ≤ 2.0 * epsilon * magnitude 2.0 + 2.0 / 2.0 := by
  have double : (search ⟨2.0, 0.0, 5, false⟩ (jump (1.5 : Float)) 0.0 4.0).outcome =
      .ok ⟨2.0, 1.0, ⟨1, 3, 0⟩⟩ := Run.ok_of_toOption (by decide +kernel)
  have single : (search ⟨2.0, 0.0, 5, false⟩ (jump (1.5 : Float32)) 0.0 4.0).outcome =
      .ok ⟨2.0, 1.0, ⟨1, 3, 0⟩⟩ := Run.ok_of_toOption (by decide +kernel)
  have opens : Opens ⟨2.0, 0.0, 5, false⟩ (jump (1.5 : Float)) 0.0 4.0 ⟨0.0, -1.0⟩ ⟨4.0, 1.0⟩ := by
    refine ⟨⟨?_, ?_, ?_, ⟨rfl, ?_, ?_⟩, ⟨rfl, ?_, ?_⟩⟩, ?_, ?_, ?_⟩ <;> decide +kernel
  have start : HoldsAfter ⟨2.0, 0.0, 5, false⟩ (jump (1.5 : Float)) 0.0 4.0 0 _ :=
    ⟨_, _, opens.reaches, rfl⟩
  refine ⟨double, ?_, ⟨_, start, ((search_sound _ _ _ _).2 0 _ start).2.2.2.1⟩, single, ?_⟩
  · obtain ⟨-, -, small | ⟨c, -, opposed, -, near⟩⟩ := (search_sound _ _ _ _).1 _ double
    · exact absurd small (by decide +kernel)
    · exact ⟨c, opposed, near⟩
  · obtain ⟨-, -, small | ⟨c, -, opposed, -, near⟩⟩ := (search_sound _ _ _ _).1 _ single
    · exact absurd small (by decide +kernel)
    · exact ⟨c, opposed, near⟩

end Nonlinear.Root
