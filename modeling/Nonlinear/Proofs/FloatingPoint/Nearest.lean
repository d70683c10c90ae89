import Mathlib
import Nonlinear.Proofs.FloatingPoint.Packing

/-! # Rounding to nearest

The finite numbers of a binary format lie on a grid of rationals: a bounded mantissa times a
power of two that is not too small.  Rounding takes a rational to the nearest point of the grid,
ties to even, as if exponents had no upper bound.  It is monotone and leaves the grid alone, and
most of what is said about rounded arithmetic needs no more than that.
-/

namespace Nonlinear.FloatingPoint

open Float.Model (Format)

section Integer

/-- The nearest integer, ties to even. -/
def roundEven (q : ℚ) : ℤ :=
  if Int.fract q < 1 / 2 then ⌊q⌋
  else if 1 / 2 < Int.fract q then ⌊q⌋ + 1
  else ⌊q⌋ + ⌊q⌋ % 2

variable {q q' : ℚ}

theorem floor_le_roundEven (q : ℚ) : ⌊q⌋ ≤ roundEven q := by
  unfold roundEven
  split_ifs <;> omega

theorem roundEven_le_floor (q : ℚ) : roundEven q ≤ ⌊q⌋ + 1 := by
  unfold roundEven
  split_ifs <;> omega

@[simp]
theorem roundEven_intCast (n : ℤ) : roundEven n = n := by
  simp [roundEven]

theorem roundEven_mono (h : q ≤ q') : roundEven q ≤ roundEven q' := by
  rcases (Int.floor_le_floor h).lt_or_eq with lt | eq
  · exact (roundEven_le_floor q).trans (lt.trans_le (floor_le_roundEven q'))
  · have fract : Int.fract q ≤ Int.fract q' := by
      rw [← Int.self_sub_floor, ← Int.self_sub_floor, eq]
      linarith
    unfold roundEven
    rw [eq]
    split_ifs <;> first | omega | linarith

theorem roundEven_neg (q : ℚ) : roundEven (-q) = -roundEven q := by
  by_cases integer : Int.fract q = 0
  · obtain ⟨n, rfl⟩ := Int.fract_eq_zero_iff.mp integer
    rw [← Int.cast_neg, roundEven_intCast, roundEven_intCast]
  · have fract : Int.fract (-q) = 1 - Int.fract q := Int.fract_neg integer
    have floor : ⌊-q⌋ = -⌊q⌋ - 1 := by
      rw [Int.floor_neg, (Int.ceil_eq_floor_add_one_iff_notMem q).mpr]
      · ring
      · rintro ⟨n, rfl⟩
        exact integer (Int.fract_intCast n)
    unfold roundEven
    rw [fract, floor]
    split_ifs <;> first | omega | linarith

/-- An integer that bounds a rational bounds the nearest integer, too. -/
theorem roundEven_le {n : ℤ} (h : q ≤ n) : roundEven q ≤ n := by
  rw [← roundEven_intCast n]
  exact roundEven_mono h

theorem le_roundEven {n : ℤ} (h : n ≤ q) : n ≤ roundEven q := by
  rw [← roundEven_intCast n]
  exact roundEven_mono h

theorem abs_roundEven_sub_le (q : ℚ) : |roundEven q - q| ≤ 1 / 2 := by
  have split := Int.floor_add_fract q
  have fract := Int.fract_nonneg q
  have fract_lt := Int.fract_lt_one q
  rw [abs_le]
  unfold roundEven
  split_ifs with low high
  · constructor <;> linarith
  · push_cast
    constructor <;> linarith
  · have tie : Int.fract q = 1 / 2 := le_antisymm (not_lt.mp high) (not_lt.mp low)
    rcases Int.emod_two_eq_zero_or_one ⌊q⌋ with even | odd
    · rw [even]
      push_cast
      constructor <;> linarith
    · rw [odd]
      push_cast
      constructor <;> linarith

end Integer

variable (spec : Format)

/-- The rationals that a format could stand for, were its exponents unbounded above. -/
def Grid (v : ℚ) : Prop :=
  ∃ m e : ℤ, |m| < 2 ^ spec.mantissaBits ∧ spec.minExponent ≤ e ∧ v = m * 2 ^ e

/-- The exponent of the last place of a rational. -/
def unit (q : ℚ) : ℤ := spec.targetExponent (Int.log 2 |q| + 1)

/-- The nearest point of the grid, ties to even. -/
def nearest (q : ℚ) : ℚ := roundEven (q / 2 ^ unit spec q) * 2 ^ unit spec q

theorem two_zpow_pos (e : ℤ) : (0 : ℚ) < 2 ^ e := by positivity

theorem minExponent_le_unit (q : ℚ) : spec.minExponent ≤ unit spec q := le_max_right _ _

theorem two_pow_mul_unit (n : ℕ) (q : ℚ) :
    (2 : ℚ) ^ n * 2 ^ unit spec q = 2 ^ (unit spec q + n) := by
  rw [← zpow_natCast, ← zpow_add₀ two_ne_zero, add_comm]

theorem abs_lt_unit (q : ℚ) : |q| < 2 ^ spec.mantissaBits * 2 ^ unit spec q := by
  have above := Int.lt_zpow_succ_log_self (b := 2) one_lt_two |q|
  rw [two_pow_mul_unit]
  refine above.trans_le (zpow_le_zpow_right₀ one_le_two ?_)
  have := le_max_left (Int.log 2 |q| + 1 - spec.mantissaBits) spec.minExponent
  simp only [unit, Format.targetExponent]
  omega

variable {spec} {q q' v : ℚ}

/-- Above the smallest unit, mantissas have a leading one. -/
theorem unit_le_abs (nonzero : q ≠ 0) (above : spec.minExponent < unit spec q) :
    2 ^ (spec.mantissaBits - 1) * 2 ^ unit spec q ≤ |q| := by
  have below := Int.zpow_log_le_self (b := 2) one_lt_two (abs_pos.mpr nonzero)
  rw [two_pow_mul_unit]
  refine (zpow_le_zpow_right₀ one_le_two ?_).trans below
  simp only [unit, Format.targetExponent, Format.mantissaBits] at above ⊢
  omega

/-- A unit is a small part of what has a leading one. -/
theorem unit_le_part (lead : 2 ^ (spec.mantissaBits - 1) * 2 ^ unit spec q ≤ v) :
    2 ^ unit spec q ≤ 2 ^ (1 - spec.mantissaBits : ℤ) * v := by
  have cancel : (2 : ℚ) ^ (1 - spec.mantissaBits : ℤ) * 2 ^ (spec.mantissaBits - 1) = 1 := by
    rw [← zpow_natCast, ← zpow_add₀ two_ne_zero, ← zpow_zero 2]
    congr 1
    simp only [Format.mantissaBits]
    omega
  calc (2 : ℚ) ^ unit spec q
      = 2 ^ (1 - spec.mantissaBits : ℤ) * (2 ^ (spec.mantissaBits - 1) * 2 ^ unit spec q) := by
        rw [← mul_assoc, cancel, one_mul]
    _ ≤ 2 ^ (1 - spec.mantissaBits : ℤ) * v := mul_le_mul_of_nonneg_left lead (two_zpow_pos _).le

theorem unit_mono (nonzero : q ≠ 0) (h : |q| ≤ |q'|) : unit spec q ≤ unit spec q' := by
  have log := Int.log_mono_right (b := 2) (abs_pos.mpr nonzero) h
  simp only [unit, Format.targetExponent]
  omega

theorem unit_le {e : ℤ} (nonzero : q ≠ 0) (small : |q| < 2 ^ (e + spec.mantissaBits))
    (le : spec.minExponent ≤ e) : unit spec q ≤ e := by
  have log := (Int.lt_zpow_iff_log_lt (b := 2) one_lt_two (abs_pos.mpr nonzero)).mp small
  simp only [unit, Format.targetExponent]
  omega

theorem unit_neg (q : ℚ) : unit spec (-q) = unit spec q := by
  rw [unit, abs_neg, unit]

namespace Grid

theorem zero : Grid spec 0 :=
  ⟨0, spec.minExponent, by simp, le_refl _, by simp⟩

theorem neg (h : Grid spec v) : Grid spec (-v) := by
  obtain ⟨m, e, bound, le, rfl⟩ := h
  exact ⟨-m, e, by rwa [abs_neg], le, by push_cast; ring⟩

theorem abs (h : Grid spec v) : Grid spec |v| := by
  rcases abs_choice v with eq | eq <;> rw [eq]
  · exact h
  · exact h.neg

/-- A mantissa may as well be a power of two with one more digit. -/
theorem of_le {m e : ℤ} (bound : |m| ≤ 2 ^ spec.mantissaBits) (le : spec.minExponent ≤ e) :
    Grid spec (m * 2 ^ e) := by
  rcases bound.lt_or_eq with lt | eq
  · exact ⟨m, e, lt, le, rfl⟩
  · have split : (2 : ℤ) ^ spec.mantissaBits = 2 ^ (spec.mantissaBits - 1) * 2 := by
      rw [← pow_succ, Nat.sub_add_cancel (by simp only [Format.mantissaBits]; omega)]
    have half : Grid spec ((2 : ℚ) ^ spec.mantissaBits * 2 ^ e) := by
      refine ⟨2 ^ (spec.mantissaBits - 1), e + 1, ?_, by omega, ?_⟩
      · rw [abs_of_nonneg (by positivity), split]
        have : (0 : ℤ) < 2 ^ (spec.mantissaBits - 1) := by positivity
        omega
      · have := congrArg (Int.cast (R := ℚ)) split
        push_cast at this ⊢
        rw [this, zpow_add_one₀ two_ne_zero]
        ring
    rcases abs_choice m with same | flip
    · rw [same] at eq
      rw [eq]
      exact_mod_cast half
    · rw [flip] at eq
      have := half.neg
      rw [← neg_mul] at this
      have cast : (m : ℚ) = -2 ^ spec.mantissaBits := by
        have := congrArg (Int.cast (R := ℚ)) eq
        push_cast at this
        linarith
      rwa [cast]

theorem two_zpow {e : ℤ} (le : spec.minExponent ≤ e) : Grid spec (2 ^ e) := by
  have small : |(1 : ℤ)| ≤ 2 ^ spec.mantissaBits := by
    rw [abs_one]
    exact one_le_pow₀ one_le_two
  have := of_le small le
  rwa [Int.cast_one, one_mul] at this

theorem double (h : Grid spec v) : Grid spec (2 * v) := by
  obtain ⟨m, e, bound, le, rfl⟩ := h
  refine ⟨m, e + 1, bound, by omega, ?_⟩
  rw [zpow_add_one₀ two_ne_zero]
  ring

end Grid

theorem nearest_neg (q : ℚ) : nearest spec (-q) = -nearest spec q := by
  rw [nearest, unit_neg, neg_div, roundEven_neg, nearest]
  push_cast
  ring

@[simp]
theorem nearest_zero : nearest spec 0 = 0 := by
  rw [nearest, zero_div, ← Int.cast_zero, roundEven_intCast]
  simp

/-- Rounding leaves the points of the grid where they are. -/
theorem nearest_of_grid (h : Grid spec v) : nearest spec v = v := by
  by_cases zero : v = 0
  · rw [zero, nearest_zero]
  obtain ⟨m, e, bound, le, eq⟩ := h
  have small : |v| < 2 ^ (e + spec.mantissaBits) := by
    rw [eq, abs_mul, abs_of_pos (two_zpow_pos e), add_comm, zpow_add₀ two_ne_zero]
    refine mul_lt_mul_of_pos_right ?_ (two_zpow_pos e)
    rw [zpow_natCast]
    exact_mod_cast bound
  obtain ⟨k, shift⟩ := Int.le.dest (unit_le zero small le)
  have integer : v / 2 ^ unit spec v = (m * 2 ^ k : ℤ) := by
    rw [div_eq_iff (two_zpow_pos _).ne']
    push_cast
    rw [mul_assoc, ← zpow_natCast, ← zpow_add₀ two_ne_zero, add_comm, shift]
    exact eq
  rw [nearest, integer, roundEven_intCast, ← integer, div_mul_cancel₀ _ (two_zpow_pos _).ne']

theorem nearest_nonneg (h : 0 ≤ q) : 0 ≤ nearest spec q := by
  refine mul_nonneg ?_ (two_zpow_pos _).le
  have : (0 : ℤ) ≤ roundEven (q / 2 ^ unit spec q) := by
    refine le_roundEven ?_
    push_cast
    positivity
  exact_mod_cast this

theorem nearest_le_unit (pos : 0 < q) :
    nearest spec q ≤ 2 ^ spec.mantissaBits * 2 ^ unit spec q := by
  have below := abs_lt_unit spec q
  rw [abs_of_pos pos, ← div_lt_iff₀ (two_zpow_pos _)] at below
  refine mul_le_mul_of_nonneg_right ?_ (two_zpow_pos _).le
  exact_mod_cast roundEven_le (n := 2 ^ spec.mantissaBits) (by exact_mod_cast below.le)

theorem unit_le_nearest (pos : 0 < q) (above : spec.minExponent < unit spec q) :
    2 ^ (spec.mantissaBits - 1) * 2 ^ unit spec q ≤ nearest spec q := by
  have below := unit_le_abs pos.ne' above
  rw [abs_of_pos pos, ← le_div_iff₀ (two_zpow_pos _)] at below
  refine mul_le_mul_of_nonneg_right ?_ (two_zpow_pos _).le
  exact_mod_cast le_roundEven (n := 2 ^ (spec.mantissaBits - 1)) (by exact_mod_cast below)

theorem nearest_mono_of_pos (pos : 0 < q) (h : q ≤ q') : nearest spec q ≤ nearest spec q' := by
  have pos' : 0 < q' := pos.trans_le h
  have units : unit spec q ≤ unit spec q' :=
    unit_mono pos.ne' (by rwa [abs_of_pos pos, abs_of_pos pos'])
  rcases units.eq_or_lt with same | further
  · rw [nearest, nearest, same]
    refine mul_le_mul_of_nonneg_right ?_ (two_zpow_pos _).le
    have : q / 2 ^ unit spec q' ≤ q' / 2 ^ unit spec q' :=
      div_le_div_of_nonneg_right h (two_zpow_pos _).le
    exact_mod_cast roundEven_mono this
  · -- a power of two lies between the two
    calc nearest spec q ≤ 2 ^ spec.mantissaBits * 2 ^ unit spec q := nearest_le_unit pos
      _ = 2 ^ (unit spec q + spec.mantissaBits) := two_pow_mul_unit spec _ q
      _ ≤ 2 ^ (unit spec q' + (spec.mantissaBits - 1 : ℕ)) :=
          zpow_le_zpow_right₀ one_le_two (by simp only [Format.mantissaBits]; omega)
      _ = 2 ^ (spec.mantissaBits - 1) * 2 ^ unit spec q' := (two_pow_mul_unit spec _ q').symm
      _ ≤ nearest spec q' :=
          unit_le_nearest pos' ((minExponent_le_unit spec q).trans_lt further)

theorem nearest_mono (h : q ≤ q') : nearest spec q ≤ nearest spec q' := by
  rcases lt_or_ge 0 q with pos | neg
  · exact nearest_mono_of_pos pos h
  · rcases lt_or_ge q' 0 with neg' | pos'
    · have flipped : nearest spec (-q') ≤ nearest spec (-q) :=
        nearest_mono_of_pos (neg_pos.mpr neg') (neg_le_neg h)
      rwa [nearest_neg, nearest_neg, neg_le_neg_iff] at flipped
    · have flipped : 0 ≤ nearest spec (-q) := nearest_nonneg (neg_nonneg.mpr neg)
      rw [nearest_neg, neg_nonneg] at flipped
      exact flipped.trans (nearest_nonneg pos')

/-- A point of the grid that bounds a rational bounds what it is rounded to. -/
theorem nearest_le (grid : Grid spec v) (h : q ≤ v) : nearest spec q ≤ v := by
  rw [← nearest_of_grid grid]
  exact nearest_mono h

theorem le_nearest (grid : Grid spec v) (h : v ≤ q) : v ≤ nearest spec q := by
  rw [← nearest_of_grid grid]
  exact nearest_mono h

theorem abs_nearest_sub_le (q : ℚ) : |nearest spec q - q| ≤ 1 / 2 * 2 ^ unit spec q := by
  have pos := two_zpow_pos (unit spec q)
  have split : nearest spec q - q =
      (roundEven (q / 2 ^ unit spec q) - q / 2 ^ unit spec q) * 2 ^ unit spec q := by
    rw [sub_mul, div_mul_cancel₀ _ pos.ne', nearest]
  rw [split, abs_mul, abs_of_pos pos]
  exact mul_le_mul_of_nonneg_right (abs_roundEven_sub_le _) pos.le

/-- What has a leading one keeps it when it is rounded. -/
theorem unit_le_abs_nearest (nonzero : q ≠ 0) (above : spec.minExponent < unit spec q) :
    2 ^ (spec.mantissaBits - 1) * 2 ^ unit spec q ≤ |nearest spec q| := by
  rcases lt_or_gt_of_ne nonzero with neg | pos
  · have lead := unit_le_nearest (neg_pos.mpr neg) ((unit_neg q).symm ▸ above)
    rw [unit_neg, nearest_neg] at lead
    exact lead.trans (neg_le_abs _)
  · exact (unit_le_nearest pos above).trans (le_abs_self _)

/-- A step of more than half a unit takes a number to the next one at least. -/
theorem lt_nearest_add {d : ℚ} (grid : Grid spec v) (large : 2 ^ unit spec v < 2 * d) :
    v < nearest spec (v + d) := by
  have pos : 0 < d := by linarith [two_zpow_pos (unit spec v)]
  have le : v ≤ nearest spec (v + d) := le_nearest grid (by linarith)
  refine le.lt_of_ne fun stays => ?_
  have near : |nearest spec (v + d) - (v + d)| ≤ 1 / 2 * 2 ^ unit spec (v + d) :=
    abs_nearest_sub_le (v + d)
  rw [← stays, sub_add_cancel_left, abs_neg, abs_of_pos pos] at near
  have higher : unit spec v < unit spec (v + d) := by
    have : (2 : ℚ) ^ unit spec v < 2 ^ unit spec (v + d) := by linarith
    exact (zpow_lt_zpow_iff_right₀ one_lt_two).mp this
  have nonzero : v + d ≠ 0 := by
    intro zero
    rw [zero, nearest_zero] at stays
    rw [stays, zero_add] at zero
    exact pos.ne' zero
  -- the sum is in a higher binade than the number, and it is not rounded down to a lower one
  have lead := unit_le_abs_nearest nonzero ((minExponent_le_unit spec v).trans_lt higher)
  rw [← stays, two_pow_mul_unit] at lead
  have small := abs_lt_unit spec v
  rw [two_pow_mul_unit] at small
  have exponents := (zpow_lt_zpow_iff_right₀ one_lt_two).mp (lead.trans_lt small)
  simp only [Format.mantissaBits] at exponents
  omega

/-- Nor is a step lost that is not too small a part of the number. -/
theorem lt_nearest_add_of_part {d : ℚ} (grid : Grid spec v) (least : 2 ^ spec.minExponent ≤ d)
    (large : |v| < 2 ^ spec.mantissaBits * d) : v < nearest spec (v + d) := by
  have pos : 0 < d := (two_zpow_pos _).trans_le least
  by_cases zero : v = 0
  · rw [zero, zero_add]
    exact (two_zpow_pos _).trans_le (le_nearest (.two_zpow (le_refl _)) least)
  · refine lt_nearest_add grid ?_
    rcases (minExponent_le_unit spec v).eq_or_lt with lowest | above
    · rw [← lowest]
      linarith
    · have bits : (2 : ℚ) ^ spec.mantissaBits = 2 ^ (spec.mantissaBits - 1) * 2 := by
        rw [← pow_succ, Nat.sub_add_cancel (by simp only [Format.mantissaBits]; omega)]
      have lead := (unit_le_abs zero above).trans_lt large
      rw [bits, mul_assoc] at lead
      exact lt_of_mul_lt_mul_left lead (by positivity)

/-- A point of the grid has a mantissa at its own unit. -/
theorem Grid.exists_mantissa (h : Grid spec v) :
    ∃ m : ℤ, |m| < 2 ^ spec.mantissaBits ∧ v = m * 2 ^ unit spec v := by
  have integer : v = roundEven (v / 2 ^ unit spec v) * 2 ^ unit spec v := (nearest_of_grid h).symm
  have small := abs_lt_unit spec v
  refine ⟨roundEven (v / 2 ^ unit spec v), ?_, integer⟩
  set m := roundEven (v / 2 ^ unit spec v)
  rw [integer, abs_mul, abs_of_pos (two_zpow_pos _), ← integer] at small
  exact_mod_cast lt_of_mul_lt_mul_right small (two_zpow_pos _).le

/-- One unit above a point of the grid is another one. -/
theorem Grid.add_unit (h : Grid spec v) : Grid spec (v + 2 ^ unit spec v) := by
  obtain ⟨m, bound, eq⟩ := h.exists_mantissa
  have next : |m + 1| ≤ 2 ^ spec.mantissaBits := (abs_add_le m 1).trans bound
  have grid := Grid.of_le next (minExponent_le_unit spec v)
  push_cast at grid
  rwa [add_mul, one_mul, ← eq] at grid

/-- Between a fifth and a third of a point of the grid there is another one. -/
theorem Grid.exists_third (h : Grid spec v) (precise : 3 ≤ spec.mantissaBits)
    (large : 3 * 2 ^ spec.minExponent ≤ v) : ∃ w, Grid spec w ∧ v / 5 ≤ w ∧ w ≤ v / 3 := by
  have smallest : (0 : ℚ) < 2 ^ spec.minExponent := two_zpow_pos _
  have pos : 0 < v := by linarith
  obtain ⟨m, bound, eq⟩ := h.exists_mantissa
  have many : (3 : ℚ) ≤ m := by
    refine le_of_mul_le_mul_right ?_ (two_zpow_pos (unit spec v))
    rw [← eq]
    rcases (minExponent_le_unit spec v).lt_or_eq with above | least
    · have lower := unit_le_abs pos.ne' above
      rw [abs_of_pos pos] at lower
      refine le_trans (mul_le_mul_of_nonneg_right ?_ (two_zpow_pos _).le) lower
      calc (3 : ℚ) ≤ 2 ^ 2 := by norm_num
        _ ≤ 2 ^ (spec.mantissaBits - 1) := pow_le_pow_right₀ one_le_two (by omega)
    · rwa [← least]
  have many' : 3 ≤ m := by exact_mod_cast many
  refine ⟨(m / 3 : ℤ) * 2 ^ unit spec v, .of_le ?_ (minExponent_le_unit spec v), ?_, ?_⟩
  · obtain ⟨-, upper⟩ := abs_lt.mp bound
    rw [abs_of_nonneg (by omega)]
    omega
  · have fifth : (m : ℚ) ≤ 5 * (m / 3 : ℤ) := by
      exact_mod_cast (by omega : m ≤ 5 * (m / 3))
    rw [div_le_iff₀ (by norm_num)]
    nth_rewrite 1 [eq]
    linarith [mul_le_mul_of_nonneg_right fifth (two_zpow_pos (unit spec v)).le]
  · have third : 3 * ((m / 3 : ℤ) : ℚ) ≤ m := by
      exact_mod_cast (by omega : 3 * (m / 3) ≤ m)
    rw [le_div_iff₀ (by norm_num)]
    nth_rewrite 2 [eq]
    linarith [mul_le_mul_of_nonneg_right third (two_zpow_pos (unit spec v)).le]

section Fraction

/-- A whole number of the smallest units. -/
def Whole (spec : Format) (q : ℚ) : Prop := ∃ n : ℤ, q = n * 2 ^ spec.minExponent

theorem Grid.whole (h : Grid spec v) : Whole spec v := by
  obtain ⟨m, e, -, le, rfl⟩ := h
  obtain ⟨k, rfl⟩ := Int.le.dest le
  refine ⟨m * 2 ^ k, ?_⟩
  rw [add_comm, zpow_add₀ two_ne_zero, zpow_natCast]
  push_cast
  ring

theorem Whole.neg (h : Whole spec q) : Whole spec (-q) := by
  obtain ⟨n, rfl⟩ := h
  exact ⟨-n, by push_cast; ring⟩

theorem Whole.sub (h : Whole spec q) (h' : Whole spec q') : Whole spec (q - q') := by
  obtain ⟨n, rfl⟩ := h
  obtain ⟨n', rfl⟩ := h'
  exact ⟨n - n', by push_cast; ring⟩

theorem Whole.least_le (h : Whole spec q) (pos : 0 < q) : 2 ^ spec.minExponent ≤ q := by
  obtain ⟨n, rfl⟩ := h
  have one_le : (1 : ℤ) ≤ n := by
    have := pos_of_mul_pos_left pos (two_zpow_pos _).le
    exact_mod_cast this
  exact le_mul_of_one_le_left (two_zpow_pos _).le (by exact_mod_cast one_le)

theorem Whole.grid_of_least (h : Whole spec q) (least : spec.minExponent = unit spec q) :
    Grid spec q := by
  obtain ⟨n, eq⟩ := h
  have small := abs_lt_unit spec q
  refine ⟨n, spec.minExponent, ?_, le_refl _, eq⟩
  rw [← least, eq, abs_mul, abs_of_pos (two_zpow_pos _)] at small
  exact_mod_cast lt_of_mul_lt_mul_right small (two_zpow_pos _).le

theorem floor_mantissa (pos : 0 < q) (above : spec.minExponent < unit spec q) :
    2 ^ (spec.mantissaBits - 1) ≤ ⌊q / 2 ^ unit spec q⌋ ∧
      ⌊q / 2 ^ unit spec q⌋ ≤ 2 ^ spec.mantissaBits := by
  have upper := abs_lt_unit spec q
  have lower := unit_le_abs pos.ne' above
  rw [abs_of_pos pos, ← div_lt_iff₀ (two_zpow_pos _)] at upper
  rw [abs_of_pos pos, ← le_div_iff₀ (two_zpow_pos _)] at lower
  refine ⟨Int.le_floor.mpr (by exact_mod_cast lower), ?_⟩
  refine Int.cast_le.mp ((Int.floor_le _).trans (upper.le.trans_eq ?_))
  push_cast
  rfl

/-- A positive rational is not rounded up further than from a point of the grid below it by one
unit, and a unit is small. -/
theorem Whole.exists_below (h : Whole spec q) (pos : 0 < q) : ∃ v e, Grid spec v ∧ Grid spec e ∧
    0 < v ∧ v ≤ q ∧ 0 ≤ e ∧ e ≤ 2 ^ (1 - spec.mantissaBits : ℤ) * v ∧
      nearest spec q ≤ v + e := by
  rcases (minExponent_le_unit spec q).lt_or_eq with above | least
  · obtain ⟨lead, bound⟩ := floor_mantissa pos above
    have positive : 0 < ⌊q / 2 ^ unit spec q⌋ := lt_of_lt_of_le (by positivity) lead
    have lead' : (2 : ℚ) ^ (spec.mantissaBits - 1) * 2 ^ unit spec q ≤
        ⌊q / 2 ^ unit spec q⌋ * 2 ^ unit spec q :=
      mul_le_mul_of_nonneg_right (by exact_mod_cast lead) (two_zpow_pos _).le
    have up : (roundEven (q / 2 ^ unit spec q) : ℚ) ≤ ⌊q / 2 ^ unit spec q⌋ + 1 := by
      exact_mod_cast roundEven_le_floor _
    refine ⟨⌊q / 2 ^ unit spec q⌋ * 2 ^ unit spec q, 2 ^ unit spec q,
      .of_le ?_ (minExponent_le_unit spec q), .two_zpow (minExponent_le_unit spec q), ?_, ?_,
      (two_zpow_pos _).le, unit_le_part lead', ?_⟩
    · rwa [abs_of_pos positive]
    · exact mul_pos (by exact_mod_cast positive) (two_zpow_pos _)
    · rw [← le_div_iff₀ (two_zpow_pos _)]
      exact Int.floor_le _
    · calc nearest spec q ≤ (⌊q / 2 ^ unit spec q⌋ + 1) * 2 ^ unit spec q :=
            mul_le_mul_of_nonneg_right up (two_zpow_pos _).le
        _ = _ := by ring
  · have grid := h.grid_of_least least
    refine ⟨q, 0, grid, .zero, pos, le_refl q, le_refl 0, by positivity, ?_⟩
    rw [nearest_of_grid grid, add_zero]

end Fraction

end Nonlinear.FloatingPoint
