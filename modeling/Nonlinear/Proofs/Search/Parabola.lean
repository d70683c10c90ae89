import Mathlib
import Nonlinear.Search.Sample

/-! # Parabolas through three samples

Three samples at different points determine a polynomial of degree at most two.  With points and
values exchanged, three samples with different values determine one that gives the point as a
function of the value.
-/

namespace Nonlinear

open Polynomial

variable {K : Type}

/-- The sample with point and value exchanged. -/
def Sample.mirrored (p : Sample K) : Sample K := ⟨p.y, p.x⟩

@[simp]
theorem Sample.mirrored_x (p : Sample K) : p.mirrored.x = p.y := rfl

@[simp]
theorem Sample.mirrored_y (p : Sample K) : p.mirrored.y = p.x := rfl

/-- Three samples are at different points. -/
structure Apart (p q r : Sample K) : Prop where
  first_second : p.x ≠ q.x
  first_third : p.x ≠ r.x
  second_third : q.x ≠ r.x

variable [Field K]

/-- The polynomial of degree at most two whose graph goes through three samples. -/
noncomputable def Sample.parabola (p q r : Sample K) : K[X] :=
  Lagrange.interpolate Finset.univ ![p.x, q.x, r.x] ![p.y, q.y, r.y]

namespace Apart

variable {p q r : Sample K}

omit [Field K] in
theorem injOn (h : Apart p q r) :
    Set.InjOn ![p.x, q.x, r.x] (Finset.univ : Finset (Fin 3)) := by
  rw [Finset.coe_univ, Set.injOn_univ]
  simp [Function.Injective, Fin.forall_fin_succ, h.first_second, h.first_third, h.second_third,
    h.first_second.symm, h.first_third.symm, h.second_third.symm]

theorem parabola_eq (h : Apart p q r) :
    p.parabola q r = C ((p.parabola q r).coeff 2) * X ^ 2 + C ((p.parabola q r).coeff 1) * X +
      C ((p.parabola q r).coeff 0) :=
  eq_quadratic_of_degree_le_two (Lagrange.degree_interpolate_le _ h.injOn)

theorem eval_parabola (h : Apart p q r) (z : K) :
    (p.parabola q r).eval z = (p.parabola q r).coeff 2 * z ^ 2 + (p.parabola q r).coeff 1 * z +
      (p.parabola q r).coeff 0 := by
  conv_lhs => rw [h.parabola_eq]
  simp

theorem eval_derivative (h : Apart p q r) (z : K) :
    (derivative (p.parabola q r)).eval z =
      2 * (p.parabola q r).coeff 2 * z + (p.parabola q r).coeff 1 := by
  conv_lhs => rw [h.parabola_eq]
  simp
  ring

theorem passes (h : Apart p q r) :
    (p.parabola q r).eval p.x = p.y ∧ (p.parabola q r).eval q.x = q.y ∧
      (p.parabola q r).eval r.x = r.y := by
  have value (i : Fin 3) : (p.parabola q r).eval (![p.x, q.x, r.x] i) = ![p.y, q.y, r.y] i :=
    Lagrange.eval_interpolate_at_node _ h.injOn (Finset.mem_univ i)
  exact ⟨value 0, value 1, value 2⟩

end Apart

end Nonlinear
