import Nonlinear.Proofs.Root.Course
import Nonlinear.Proofs.Scalar.Symmetry

/-! # Root searches from the other end

A root search may be given its endpoints in either order.  From the one order it starts with a
bracket, from the other with that bracket turned round, and the last step has the opposite sign.
The first comparison of sizes makes the brackets equal, and of the last step only the size is ever
looked at.
-/

namespace Nonlinear

namespace Loop

variable {ε δ σ β : Type} {loop : Loop ε δ σ β} {s t : σ}

/-- States that a loop treats alike lead to the same run. -/
theorem run_congr (done : loop.done s ↔ loop.done t) (finish : loop.finish s = loop.finish t)
    (giveUp : loop.giveUp s = loop.giveUp t) (step : loop.step s = loop.step t) (n : Nat) :
    loop.run n s = loop.run n t := by
  cases n with
  | zero => simp only [run, done, finish, giveUp]
  | succ n => simp only [run, done, finish, step]

end Loop

namespace Root

open Scalar

variable {α : Type} [Scalar α]

namespace Bracket

/-- Of the last step only the size matters. -/
theorem propose_congr {l l' : α} (same : magnitude l = magnitude l')
    (halves : ∀ q : α, magnitude (l * q / 2.0) = magnitude (l' * q / 2.0)) (s : Bracket α)
    (resolution : α) (bisectionOnly : Bool) :
    s.propose resolution l bisectionOnly = s.propose resolution l' bisectionOnly := by
  simp only [propose, accepts, same, halves]

variable {p q : Sample α}

section Lawful

variable [LawfulScalar α]

theorem keepBest_between (hp : isFinite p.y = true) (hq : isFinite q.y = true)
    (unequal : (magnitude p.y == magnitude q.y) = false) :
    (between p q).keepBest = (between q p).keepBest := by
  have number : ∀ {y : α}, isFinite y = true → isNaN (magnitude y) = false := fun {y} finite => by
    rw [LawfulScalar.isNaN_magnitude]
    exact LawfulScalar.isNaN_of_isFinite finite
  unfold keepBest between
  by_cases below : magnitude p.y < magnitude q.y
  · rw [if_pos below, if_neg (not_lt_of_lt below)]
  · have above : magnitude q.y < magnitude p.y := by
      refine lt_of_not_le (number hq) (number hp) fun le => ?_
      have ge := le_of_not_lt (number hp) (number hq) below
      rw [LawfulScalar.beq_iff.mpr ⟨le, ge⟩] at unequal
      cases unequal
    rw [if_neg below, if_pos above]

end Lawful

variable [SymmetricScalar α]

theorem move_between (config : SearchConfig α)
    (same : (between p q).keepBest = (between q p).keepBest) :
    (between p q).move config = (between q p).move config := by
  have opposite : magnitude (q.x - p.x) = magnitude (p.x - q.x) :=
    SymmetricScalar.magnitude_sub_comm _ _
  unfold move
  rw [same]
  apply propose_congr opposite
  intro r
  exact SymmetricScalar.magnitude_div_right _ (SymmetricScalar.magnitude_mul_right r opposite)

end Bracket

/-- After the calls at the ends, the courses differ in nothing but the order in which they name
these. -/
inductive Mirrors : Course α (Solution α) → Course α (Solution α) → Prop where
  | same (course) : Mirrors course course
  | left (x : α) (solution) :
      Mirrors ⟨[.event (.leftEndpoint x)], .ok solution⟩ ⟨[.event (.rightEndpoint x)], .ok solution⟩
  | right (x : α) (solution) :
      Mirrors ⟨[.event (.rightEndpoint x)], .ok solution⟩ ⟨[.event (.leftEndpoint x)], .ok solution⟩
  | noSignChange (a b fa fb : α) :
      Mirrors ⟨[.event (.noSignChange a b)], .error (.invalidBracket a b fa fb)⟩
        ⟨[.event (.noSignChange b a)], .error (.invalidBracket b a fb fa)⟩

variable [LawfulScalar α] [SymmetricScalar α] {config : SearchConfig α} {p q : Sample α}

theorem run_opening (f : ScalarFunction α) (hp : isFinite p.y = true) (hq : isFinite q.y = true)
    (unequal : (magnitude p.y == magnitude q.y) = false) (budget : Nat) :
    ((scheme config).loop f config.maxIterations).run budget (opening p q) =
      ((scheme config).loop f config.maxIterations).run budget (opening q p) := by
  have best := Bracket.keepBest_between hp hq unequal
  have move := Bracket.move_between config best
  have target : (Bracket.between p q).target config = (Bracket.between q p).target config := by
    rw [Bracket.target, Bracket.target, best, move]
  apply Loop.run_congr
  case done =>
    show (Bracket.between p q).settled config ↔ (Bracket.between q p).settled config
    rw [Bracket.settled, Bracket.settled, best]
  case finish => simp only [Scheme.loop, scheme, opening, best]
  case giveUp => simp only [Scheme.loop, scheme, opening, best]
  case step => simp only [Scheme.loop, scheme, opening, best, move, target]

theorem proceed_mirrors (f : ScalarFunction α) (hp : isFinite p.y = true)
    (hq : isFinite q.y = true) (unequal : (magnitude p.y == magnitude q.y) = false)
    (one : ¬ (magnitude p.y ≤ config.functionTolerance ∧
      magnitude q.y ≤ config.functionTolerance)) (a b : α) :
    Mirrors (proceed config f a b p q) (proceed config f b a q p) := by
  by_cases left : magnitude p.y ≤ config.functionTolerance
  · have right : ¬ magnitude q.y ≤ config.functionTolerance := fun right => one ⟨left, right⟩
    rw [proceed, proceed, if_pos left, if_neg right, if_pos left]
    exact .left a _
  by_cases right : magnitude q.y ≤ config.functionTolerance
  · rw [proceed, proceed, if_neg left, if_pos right, if_pos right]
    exact .right b _
  rw [proceed, proceed, if_neg left, if_neg right, if_neg right, if_neg left,
    Bool.beq_comm (a := isNegative q.y)]
  split
  · exact .noSignChange a b p.y q.y
  · rw [run_opening f hp hq unequal]
    exact .same _

/-- A search for a root of `g` between `a` and `b` goes as one between `b` and `a`, once both ends
are sampled: it asks for the same points by steps of the same kinds, and it comes to the same
solution or to the same failure.  If there is no change of sign, the failure names the ends the
other way round.  The values at the ends must differ in size, and not both count as zero. -/
theorem search_reversed {g : α → Except EvaluationError α} {a b fa fb : α}
    (valid : config.validate = .ok ()) (finite_a : isFinite a = true)
    (finite_b : isFinite b = true) (left : g a = .ok fa) (right : g b = .ok fb)
    (finite_fa : isFinite fa = true) (finite_fb : isFinite fb = true)
    (unequal : (magnitude fa == magnitude fb) = false)
    (one : ¬ (magnitude fa ≤ config.functionTolerance ∧
      magnitude fb ≤ config.functionTolerance)) :
    ∃ forth back : Course α (Solution α), Mirrors forth back ∧
      search config (fun _ => g) a b = forth.after [.call a (.ok fa), .call b (.ok fb)] ∧
      search config (fun _ => g) b a = back.after [.call b (.ok fb), .call a (.ok fa)] := by
  have forth : Sampled config (fun _ => g) a b ⟨a, fa⟩ ⟨b, fb⟩ :=
    ⟨finite_a, finite_b, valid, ⟨rfl, left, finite_fa⟩, ⟨rfl, right, finite_fb⟩⟩
  have back : Sampled config (fun _ => g) b a ⟨b, fb⟩ ⟨a, fa⟩ :=
    ⟨finite_b, finite_a, valid, ⟨rfl, right, finite_fb⟩, ⟨rfl, left, finite_fa⟩⟩
  refine ⟨_, _, proceed_mirrors (fun _ => g) (p := ⟨a, fa⟩) (q := ⟨b, fb⟩) finite_fa finite_fb
    unequal one a b, ?_, ?_⟩
  · rw [forth.search_eq, openingTrace, left, right]
  · rw [back.search_eq, openingTrace, left, right]

/-- The square root of two, in doubles, in singles and in exact arithmetic, from either end. -/
theorem search_reversed_sqrt_two :
    (∃ forth back : Course Float (Solution Float), Mirrors forth back ∧
      search ⟨0.25, 0.0, 10, false⟩ (fun _ (x : Float) => .ok (x * x - 2.0)) 1.0 2.0 =
        forth.after [.call 1.0 (.ok (-1.0)), .call 2.0 (.ok 2.0)] ∧
      search ⟨0.25, 0.0, 10, false⟩ (fun _ (x : Float) => .ok (x * x - 2.0)) 2.0 1.0 =
        back.after [.call 2.0 (.ok 2.0), .call 1.0 (.ok (-1.0))]) ∧
    (∃ forth back : Course Float32 (Solution Float32), Mirrors forth back ∧
      search ⟨0.25, 0.0, 10, false⟩ (fun _ (x : Float32) => .ok (x * x - 2.0)) 1.0 2.0 =
        forth.after [.call 1.0 (.ok (-1.0)), .call 2.0 (.ok 2.0)] ∧
      search ⟨0.25, 0.0, 10, false⟩ (fun _ (x : Float32) => .ok (x * x - 2.0)) 2.0 1.0 =
        back.after [.call 2.0 (.ok 2.0), .call 1.0 (.ok (-1.0))]) ∧
    (∃ forth back : Course ℚ (Solution ℚ), Mirrors forth back ∧
      search ⟨0.25, 0.0, 10, false⟩ (fun _ (x : ℚ) => .ok (x * x - 2)) 1 2 =
        forth.after [.call 1 (.ok (-1)), .call 2 (.ok 2)] ∧
      search ⟨0.25, 0.0, 10, false⟩ (fun _ (x : ℚ) => .ok (x * x - 2)) 2 1 =
        back.after [.call 2 (.ok 2), .call 1 (.ok (-1))]) := by
  refine ⟨?_, ?_, ?_⟩
  · exact search_reversed (g := fun x => .ok (x * x - 2.0)) (by decide +kernel) (by decide +kernel)
      (by decide +kernel) (by decide +kernel) (by decide +kernel) (by decide +kernel)
      (by decide +kernel) (by decide +kernel) (by decide +kernel)
  · exact search_reversed (g := fun x => .ok (x * x - 2.0)) (by decide +kernel) (by decide +kernel)
      (by decide +kernel) (by decide +kernel) (by decide +kernel) (by decide +kernel)
      (by decide +kernel) (by decide +kernel) (by decide +kernel)
  · exact search_reversed (g := fun x => .ok (x * x - 2)) (by decide +kernel) (by decide +kernel)
      (by decide +kernel) (by decide +kernel) (by decide +kernel) (by decide +kernel)
      (by decide +kernel) (by decide +kernel) (by decide +kernel)

end Root

end Nonlinear
