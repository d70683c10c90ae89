import Mathlib
import Nonlinear.Proofs.Minimum.Rounded
import Nonlinear.Proofs.Root.Rounded

/-! # Containment of both searches in rounded arithmetic

With doubles and singles a search stays between its ends where its operations have room.  At the
far ends of the range of a format it can leave them.
-/

namespace Nonlinear

variable {α : Type} [Scalar α] [BinaryScalar α] [BinaryConstants α]

/-- A root search stays between its ends, if their distance is finite and no interpolated step is
rounded to zero.  A minimum search does, if both ends can be doubled, the tolerance is not among
the smallest numbers, and the resolution shows next to an interval with a parabolic step. -/
theorem searches_stay_between (config : SearchConfig α) (f : ScalarFunction α) (a b : α) :
    (Scalar.isFinite (b - a) = true → Root.Moving config f a b →
      StaysBetween a b (Root.search config f a b)) ∧
    (Minimum.Roomy config a b → Minimum.Resolving config f a b →
      StaysBetween a b (Minimum.search config f a b)) :=
  ⟨Root.search_between, Minimum.search_between⟩

/-- The square root of two in doubles by interpolation, and in singles by bisection.  A minimum in
singles. -/
theorem searches_stay_between_quadratic :
    let course := Root.search ⟨0.001, 0.0, 10, false⟩ (fun _ (x : Float) => .ok (x * x - 2.0))
      1.0 2.0
    ((SearchEntry.events course.trace).filterMap
        (fun | .step _ _ _ kind => some kind | _ => none) =
          [.secant, .inverseQuadratic, .secant, .secant] ∧
      StaysBetween 1.0 2.0 course) ∧
    StaysBetween 1.0 2.0
      (Root.search ⟨0.25, 0.0, 10, true⟩ (fun _ (x : Float32) => .ok (x * x - 2.0)) 1.0 2.0) ∧
    StaysBetween 3.0 (-1.0)
      (Minimum.search ⟨0.5, 0.0, 20, false⟩ (fun _ (x : Float32) => .ok ((x - 1.0) * (x - 1.0)))
        3.0 (-1.0)) := by
  intro course
  have opens : Root.Opens ⟨0.001, 0.0, 10, false⟩ (fun _ (x : Float) => .ok (x * x - 2.0))
      1.0 2.0 ⟨1.0, -1.0⟩ ⟨2.0, 2.0⟩ := by
    refine ⟨⟨?_, ?_, ?_, ⟨rfl, ?_, ?_⟩, ⟨rfl, ?_, ?_⟩⟩, ?_, ?_, ?_⟩ <;> decide +kernel
  have moving : Root.Moving ⟨0.001, 0.0, 10, false⟩ (fun _ (x : Float) => .ok (x * x - 2.0))
      1.0 2.0 :=
    Root.moving_of_states opens (by decide : 4 ≤ 10) (by decide +kernel) (by decide +kernel)
  have roomy : Minimum.Roomy ⟨0.5, 0.0, 20, false⟩ (3.0 : Float32) (-1.0) :=
    ⟨by decide +kernel, by decide +kernel, by decide +kernel⟩
  exact ⟨⟨by decide +kernel, (searches_stay_between _ _ _ _).1 (by decide +kernel) moving⟩,
    (searches_stay_between _ _ _ _).1 (by decide +kernel) (Root.moving_of_bisectionOnly rfl),
    (searches_stay_between _ _ _ _).2 roomy
      (Minimum.resolving_of_tolerance roomy (.inr (by decide +kernel)))⟩

/-- Zero below the origin, barely negative at first and one beyond. -/
def cliff : ScalarFunction Float := fun _ x =>
  .ok (if x < 0.0 then 0.0 else if x < 1e-300 then -1e-200 else 1.0)

/-- From the first secant of this search nothing is left.  It is lengthened downwards, and a root
outside of the bracket is answered.  A minimum search begins at infinity where the length of its
interval overflows. -/
theorem searches_leave :
    (∃ r, (Root.search ⟨1e-300, 0.0, 100, false⟩ cliff 0.0 1e-200).outcome = .ok r ∧
      ¬ Between 0.0 1e-200 r.x) ∧
    ∃ x ∈ SearchEntry.arguments (Minimum.search ⟨1e-300, 0.0, 100, false⟩ cliff
        (-1.7e308) 1.7e308).trace,
      Scalar.isFinite x = false ∧ ¬ Between (-1.7e308) 1.7e308 x := by
  constructor
  · have left : ((Root.search ⟨1e-300, 0.0, 100, false⟩ cliff 0.0 1e-200).outcome.toOption.any
        fun r => ¬ Between 0.0 1e-200 r.x) = true := by decide +kernel
    obtain ⟨r, found, outside⟩ := (Option.any_eq_true _ _).mp left
    exact ⟨r, Run.ok_of_toOption found, of_decide_eq_true outside⟩
  · decide +kernel

end Nonlinear
