import Mathlib
import Nonlinear.Proofs.FloatingPoint.Order
import Nonlinear.Proofs.FloatingPoint.Rounding

/-! # Arithmetic of binary numbers

Every number but a NaN stands for a rational: a finite one for its value, an infinity for the
least power of two that is too large for the format.  Comparisons are those of the rationals, and
an operation on finite numbers gives the exact rational, rounded to nearest and clipped.
-/

namespace Nonlinear.FloatingPoint

open Float.Model (Format UnpackedFloat)
open Float.Model.UnpackedFloat

variable {spec : Format}

/-- The largest exponent that a mantissa can have in a format. -/
def maxExponent (spec : Format) : ℤ :=
  2 ^ spec.exponentBits - 2 - spec.exponentBias - spec.mantissaBitsWithoutImplicit

/-- The least power of two that is too large for a format. -/
def limit (spec : Format) : ℚ := 2 ^ (maxExponent spec + spec.mantissaBits)

theorem biased_minExponent (spec : Format) : biased spec spec.minExponent = 1 := by
  have := spec.he
  have : (1 : ℕ) ≤ 2 ^ (spec.exponentBits - 1) := Nat.one_le_two_pow
  simp only [biased, Format.minExponent, Format.mantissaBits, Format.exponentBias]
  push_cast [this]
  omega

theorem fits_iff {u : UnpackedFloat} :
    Fits spec u ↔ Canonical spec u ∧
      match u with
      | .finite _ _ e _ => e ≤ maxExponent spec
      | _ => True := by
  cases u with
  | infinity | zero | notANumber => simp [Fits, Canonical]
  | finite s m e pos =>
      have least := biased_minExponent spec
      have bits : spec.mantissaBits = spec.mantissaBitsWithoutImplicit + 1 := Nat.add_comm _ _
      simp only [Fits, Canonical, bits, Nat.add_sub_cancel, biased, maxExponent] at least ⊢
      push_cast
      constructor
      · rintro ⟨bound, low, high, lead⟩
        exact ⟨⟨bound, by omega, lead.imp_right fun _ => by omega⟩, by omega⟩
      · rintro ⟨⟨bound, low, lead⟩, high⟩
        exact ⟨bound, by omega, by omega, lead.imp_right fun _ => by omega⟩

theorem abs_signed (s : Sign) {q : ℚ} (nonneg : 0 ≤ q) : |signed s q| = q := by
  cases s with
  | negative => exact (abs_neg q).trans (abs_of_nonneg nonneg)
  | positive => exact abs_of_nonneg nonneg

/-- A value overflows its format where it reaches the limit. -/
theorem abs_toRat_lt_iff (wide : 1 < spec.exponentBits) {u : UnpackedFloat}
    (h : Canonical spec u) : |toRat u| < limit spec ↔ Fits spec u := by
  cases u with
  | infinity | zero | notANumber =>
      show |(0 : ℚ)| < limit spec ↔ _
      rw [abs_zero]
      exact iff_of_true (two_zpow_pos _) trivial
  | finite s m e pos =>
      have bits : spec.mantissaBits = spec.mantissaBits - 1 + 1 := by
        simp only [Format.mantissaBits]
        omega
      rw [fits_iff, toRat, abs_signed s (by positivity), limit]
      simp only [h, true_and]
      obtain ⟨bound, low, lead⟩ := h
      constructor
      · intro small
        by_contra large
        rw [not_le] at large
        have many : 2 ^ (spec.mantissaBits - 1) ≤ m := by
          refine lead.resolve_right fun least => ?_
          have smallest := biased_minExponent spec
          have four : (2 : ℤ) ^ 2 ≤ 2 ^ spec.exponentBits := pow_le_pow_right₀ one_le_two wide
          simp only [maxExponent, biased] at large smallest
          omega
        have : (2 : ℚ) ^ (maxExponent spec + spec.mantissaBits) ≤ m * 2 ^ e := by
          calc (2 : ℚ) ^ (maxExponent spec + spec.mantissaBits)
              = 2 ^ (spec.mantissaBits - 1) * 2 ^ (maxExponent spec + 1) := by
                rw [← zpow_natCast, ← zpow_add₀ two_ne_zero]
                congr 1
                omega
            _ ≤ m * 2 ^ e := by
                refine mul_le_mul ?_ (zpow_le_zpow_right₀ one_le_two (by omega))
                  (two_zpow_pos _).le (Nat.cast_nonneg m)
                exact_mod_cast many
        exact absurd small (not_lt_of_ge this)
      · intro le
        calc (m * 2 ^ e : ℚ) < 2 ^ spec.mantissaBits * 2 ^ e :=
              mul_lt_mul_of_pos_right (by exact_mod_cast bound) (two_zpow_pos e)
          _ = 2 ^ (e + spec.mantissaBits) := by
              rw [← zpow_natCast, ← zpow_add₀ two_ne_zero, add_comm]
          _ ≤ 2 ^ (maxExponent spec + spec.mantissaBits) :=
              zpow_le_zpow_right₀ one_le_two (by omega)

/-- What is too large for the format is packed to an infinity. -/
theorem unpack_pack_overflow {s : Sign} {m : ℕ} {e : ℤ} {pos : 0 < m}
    (h : Canonical spec (.finite s m e pos)) (large : ¬ Fits spec (.finite s m e pos)) :
    unpack spec (UnpackedFloat.pack spec (.finite s m e pos)) = .infinity s := by
  have overflow : 2 ^ spec.exponentBits ≤ (biased spec e).toNat + 1 := by
    rw [fits_iff, not_and] at large
    have := large h
    simp only [maxExponent, biased] at this ⊢
    have : ((2 ^ spec.exponentBits : ℕ) : ℤ) = 2 ^ spec.exponentBits := by push_cast; rfl
    omega
  rw [pack_finite, if_pos overflow]
  exact unpack_pack (u := .infinity s) trivial

theorem lex_lt {m n : ℕ} {e k : ℤ} (bound : m < 2 ^ spec.mantissaBits)
    (le : spec.minExponent ≤ e)
    (lead : 2 ^ (spec.mantissaBits - 1) ≤ n ∨ k = spec.minExponent)
    (h : e < k ∨ e = k ∧ m < n) : (m * 2 ^ e : ℚ) < n * 2 ^ k := by
  rcases h with lt | ⟨rfl, lt⟩
  · have many : 2 ^ (spec.mantissaBits - 1) ≤ n := lead.resolve_right (by omega)
    have bits : spec.mantissaBits = spec.mantissaBits - 1 + 1 := by
      simp only [Format.mantissaBits]
      omega
    calc (m * 2 ^ e : ℚ) < 2 ^ spec.mantissaBits * 2 ^ e :=
          mul_lt_mul_of_pos_right (by exact_mod_cast bound) (two_zpow_pos e)
      _ = 2 ^ (spec.mantissaBits - 1) * 2 ^ (e + 1) := by
          rw [bits, Nat.add_sub_cancel, pow_succ, zpow_add_one₀ two_ne_zero]
          ring
      _ ≤ n * 2 ^ k :=
          mul_le_mul (by exact_mod_cast many) (zpow_le_zpow_right₀ one_le_two (by omega))
            (two_zpow_pos _).le (Nat.cast_nonneg n)
  · exact mul_lt_mul_of_pos_right (by exact_mod_cast lt) (two_zpow_pos e)

/-- Finite numbers have the order of the rationals they stand for. -/
theorem toRat_lt_of_rank {u v : UnpackedFloat} (hu : u.isFinite = true) (hv : v.isFinite = true)
    (cu : Canonical spec u) (cv : Canonical spec v) (h : rank u < rank v) : toRat u < toRat v := by
  have positive {m : ℕ} {e : ℤ} (pos : 0 < m) : (0 : ℚ) < m * 2 ^ e :=
    mul_pos (by exact_mod_cast pos) (two_zpow_pos e)
  cases u with
  | notANumber | infinity => cases hu
  | zero s =>
      cases v with
      | notANumber | infinity => cases hv
      | zero t => exact absurd h (lt_irrefl _)
      | finite t n k pos =>
          cases t with
          | negative => simp [rank, Prod.Lex.toLex_lt_toLex] at h
          | positive => exact positive pos
  | finite s m e pos =>
      cases v with
      | notANumber | infinity => cases hv
      | zero t =>
          cases s with
          | negative => exact neg_neg_of_pos (positive pos)
          | positive => simp [rank, Prod.Lex.toLex_lt_toLex] at h
      | finite t n k pos' =>
          cases s <;> cases t
          · refine neg_lt_neg (lex_lt cv.1 cv.2.1 cu.2.2 ?_)
            simp only [rank, Prod.Lex.toLex_lt_toLex] at h
            omega
          · exact (neg_neg_of_pos (positive pos)).trans (positive pos')
          · simp [rank, Prod.Lex.toLex_lt_toLex] at h
          · refine lex_lt cu.1 cu.2.1 cv.2.2 ?_
            simp only [rank, Prod.Lex.toLex_lt_toLex] at h
            omega

theorem toRat_eq_of_rank {u v : UnpackedFloat} (hu : u.isFinite = true) (hv : v.isFinite = true)
    (h : rank u = rank v) : toRat u = toRat v := by
  cases u with
  | notANumber | infinity => cases hu
  | zero s =>
      cases v with
      | notANumber | infinity => cases hv
      | zero t => rfl
      | finite t => cases t <;> simp [rank] at h
  | finite s m e pos =>
      cases v with
      | notANumber | infinity => cases hv
      | zero t => cases s <;> simp [rank] at h
      | finite t n k pos' =>
          cases s <;> cases t <;> simp [rank] at h <;> simp [toRat, h]

/-- The rational that a number stands for; an infinity stands for the limit of its format. -/
def reach (spec : Format) : UnpackedFloat → ℚ
  | .infinity s => signed s (limit spec)
  | u => toRat u

theorem reach_of_finite {u : UnpackedFloat} (h : u.isFinite = true) : reach spec u = toRat u := by
  cases u with
  | infinity | notANumber => cases h
  | zero | finite => rfl

theorem limit_pos (spec : Format) : 0 < limit spec := two_zpow_pos _

theorem reach_lt_of_rank (wide : 1 < spec.exponentBits) {u v : UnpackedFloat}
    (hu : u.isNaN = false) (hv : v.isNaN = false) (fu : Fits spec u) (fv : Fits spec v)
    (h : rank u < rank v) : reach spec u < reach spec v := by
  have cu := (fits_iff.mp fu).1
  have cv := (fits_iff.mp fv).1
  have bound_u := abs_lt.mp ((abs_toRat_lt_iff wide cu).mpr fu)
  have bound_v := abs_lt.mp ((abs_toRat_lt_iff wide cv).mpr fv)
  rcases finite_or_infinity hu with finite | ⟨s, rfl⟩
  · rw [reach_of_finite finite]
    rcases finite_or_infinity hv with finite' | ⟨t, rfl⟩
    · rw [reach_of_finite finite']
      exact toRat_lt_of_rank finite finite' cu cv h
    · cases t with
      | positive => exact bound_u.2
      | negative => exact absurd h (not_lt_of_gt (rank_between finite).1)
  · rcases finite_or_infinity hv with finite' | ⟨t, rfl⟩
    · rw [reach_of_finite finite']
      cases s with
      | negative => exact bound_v.1
      | positive => exact absurd h (not_lt_of_gt (rank_between finite').2)
    · have opposite : s = .negative ∧ t = .positive := by
        cases s <;> cases t <;> simp [rank, Prod.Lex.toLex_lt_toLex] at h ⊢
      obtain ⟨rfl, rfl⟩ := opposite
      exact neg_lt_self (limit_pos spec)

theorem reach_eq_of_rank {u v : UnpackedFloat} (hu : u.isNaN = false) (hv : v.isNaN = false)
    (h : rank u = rank v) : reach spec u = reach spec v := by
  rcases finite_or_infinity hu with finite | ⟨s, rfl⟩
  · rcases finite_or_infinity hv with finite' | ⟨t, rfl⟩
    · rw [reach_of_finite finite, reach_of_finite finite', toRat_eq_of_rank finite finite' h]
    · obtain ⟨above, below⟩ := rank_between finite
      cases t with
      | negative => exact absurd h above.ne'
      | positive => exact absurd h below.ne
  · rcases finite_or_infinity hv with finite' | ⟨t, rfl⟩
    · obtain ⟨above, below⟩ := rank_between finite'
      cases s with
      | negative => exact absurd h above.ne
      | positive => exact absurd h below.ne'
    · have same : s = t := by
        cases s <;> cases t <;> simp [rank] at h ⊢
      rw [same]

section Clip

/-- What an operation gives whose exact result is `q`. -/
def clip (spec : Format) (q : ℚ) : ℚ := max (-limit spec) (min (limit spec) (nearest spec q))

variable {q q' v : ℚ}

theorem grid_limit (spec : Format) : Grid spec (limit spec) := by
  have smallest := biased_minExponent spec
  have two : (2 : ℤ) ^ 1 ≤ 2 ^ spec.exponentBits := pow_le_pow_right₀ one_le_two spec.he
  refine ⟨1, maxExponent spec + spec.mantissaBits, ?_, ?_, by rw [limit]; push_cast; ring⟩
  · rw [abs_one]
    exact one_lt_pow₀ one_lt_two (by simp only [Format.mantissaBits]; omega)
  · simp only [maxExponent, biased, Format.mantissaBits] at smallest ⊢
    omega

theorem clip_mono (h : q ≤ q') : clip spec q ≤ clip spec q' :=
  max_le_max_left _ (min_le_min_left _ (nearest_mono h))

theorem clip_le_grid (grid : Grid spec v) (low : -limit spec ≤ v) (h : q ≤ v) :
    clip spec q ≤ v :=
  max_le low ((min_le_right _ _).trans (nearest_le grid h))

theorem grid_le_clip (grid : Grid spec v) (high : v ≤ limit spec) (h : v ≤ q) :
    v ≤ clip spec q :=
  le_max_of_le_right (le_min high (le_nearest grid h))

theorem clip_of_le (h : |nearest spec q| ≤ limit spec) : clip spec q = nearest spec q := by
  obtain ⟨above, below⟩ := abs_le.mp h
  rw [clip, min_eq_right below, max_eq_right above]

theorem clip_of_grid (grid : Grid spec v) (h : |v| ≤ limit spec) : clip spec v = v := by
  rw [clip_of_le, nearest_of_grid grid]
  rwa [nearest_of_grid grid]

theorem clip_of_lt (h : |clip spec q| < limit spec) : clip spec q = nearest spec q := by
  have pos := limit_pos spec
  obtain ⟨above, below⟩ := abs_lt.mp h
  rw [clip] at above below ⊢
  have bottom : -limit spec < min (limit spec) (nearest spec q) :=
    (lt_max_iff.mp above).resolve_left (lt_irrefl _)
  rw [max_eq_right bottom.le] at below ⊢
  exact min_eq_right ((min_lt_iff.mp below).resolve_left (lt_irrefl _)).le

theorem clip_zero : clip spec 0 = 0 :=
  clip_of_grid .zero (by rw [abs_zero]; exact (limit_pos spec).le)

theorem clip_neg (q : ℚ) : clip spec (-q) = -clip spec q := by
  have pos := limit_pos spec
  rw [clip, clip, nearest_neg]
  rcases le_total (nearest spec q) (-limit spec) with low | low
  · rw [min_eq_left (by linarith), min_eq_right (by linarith), max_eq_right (by linarith),
      max_eq_left low, neg_neg]
  · rw [min_eq_right (a := limit spec) (b := -nearest spec q) (by linarith)]
    rcases le_total (limit spec) (nearest spec q) with high | high
    · rw [min_eq_left high, max_eq_left (by linarith), max_eq_right (by linarith)]
    · rw [min_eq_right high, max_eq_right (by linarith), max_eq_right low]

theorem abs_clip (q : ℚ) : |clip spec q| = clip spec |q| := by
  rcases abs_cases q with ⟨eq, sign⟩ | ⟨eq, sign⟩ <;> rw [eq]
  · exact abs_of_nonneg (clip_zero.symm.trans_le (clip_mono sign))
  · rw [clip_neg]
    exact abs_of_nonpos ((clip_mono sign.le).trans_eq clip_zero)

theorem abs_clip_mono (h : |q| ≤ |q'|) : |clip spec q| ≤ |clip spec q'| := by
  rw [abs_clip, abs_clip]
  exact clip_mono h

/-- The factor by which a positive number can be rounded up leaves room for a quarter. -/
theorem clip_fraction_of_pos {κ : ℚ} (precise : 3 ≤ spec.mantissaBits) (whole : Whole spec q)
    (pos : 0 < q) (small : κ ≤ 3 / 4) (finite : |clip spec q| < limit spec) :
    clip spec (κ * clip spec q) ≤ q := by
  obtain ⟨v, e, grid, -, v_pos, below, -, unit_le, near⟩ := whole.exists_below pos
  have same := clip_of_lt finite
  rw [same] at finite
  rw [same]
  have quarter : (2 : ℚ) ^ (1 - spec.mantissaBits : ℤ) ≤ 1 / 4 := by
    calc (2 : ℚ) ^ (1 - spec.mantissaBits : ℤ) ≤ 2 ^ (-2 : ℤ) :=
          zpow_le_zpow_right₀ one_le_two (by omega)
      _ = 1 / 4 := by norm_num
  have fraction : κ * nearest spec q ≤ v := by
    have unit_le' : e ≤ 1 / 4 * v :=
      unit_le.trans (mul_le_mul_of_nonneg_right quarter v_pos.le)
    calc κ * nearest spec q ≤ 3 / 4 * nearest spec q :=
          mul_le_mul_of_nonneg_right small (nearest_nonneg pos.le)
      _ ≤ v := by linarith
  have inside : |v| ≤ limit spec := by
    rw [abs_of_pos v_pos]
    exact (le_nearest grid below).trans ((le_abs_self _).trans finite.le)
  calc clip spec (κ * nearest spec q) ≤ clip spec v := clip_mono fraction
    _ = v := clip_of_grid grid inside
    _ ≤ q := below

/-- A fraction of a rounded number does not exceed the number before it was rounded. -/
theorem clip_fraction {κ : ℚ} (precise : 3 ≤ spec.mantissaBits) (whole : Whole spec q)
    (nonneg : 0 ≤ κ) (small : κ ≤ 3 / 4) (finite : |clip spec q| < limit spec) :
    clip spec (κ * clip spec q) ∈ Set.uIcc 0 q := by
  rcases lt_trichotomy q 0 with neg | rfl | pos
  · have flipped := clip_fraction_of_pos precise whole.neg (neg_pos.mpr neg) small
      (by rwa [clip_neg, abs_neg])
    rw [clip_neg, mul_neg, clip_neg, neg_le_neg_iff] at flipped
    have below : clip spec (κ * clip spec q) ≤ clip spec 0 :=
      clip_mono (mul_nonpos_of_nonneg_of_nonpos nonneg ((clip_mono neg.le).trans_eq clip_zero))
    rw [clip_zero] at below
    exact Set.mem_uIcc.mpr (.inr ⟨flipped, below⟩)
  · rw [clip_zero, mul_zero, clip_zero]
    exact Set.left_mem_uIcc
  · have above : clip spec 0 ≤ clip spec (κ * clip spec q) :=
      clip_mono (mul_nonneg nonneg (clip_zero.symm.trans_le (clip_mono pos.le)))
    rw [clip_zero] at above
    exact Set.mem_uIcc.mpr
      (.inl ⟨above, clip_fraction_of_pos precise whole pos small finite⟩)

/-- A rounded distance less twice a margin does not exceed the distance, where the margin shows
next to it. -/
theorem clip_sub_le {distance margin : ℚ} (whole : Whole spec distance) (pos : 0 < distance)
    (finite : |clip spec distance| < limit spec)
    (shows : 2 ^ (1 - spec.mantissaBits : ℤ) * distance ≤ margin) :
    clip spec (clip spec distance - 2 * margin) ≤ distance := by
  obtain ⟨v, e, grid, -, v_pos, below, nonneg, unit_le, near⟩ := whole.exists_below pos
  have unit_small : e ≤ margin := by
    calc e ≤ 2 ^ (1 - spec.mantissaBits : ℤ) * v := unit_le
      _ ≤ 2 ^ (1 - spec.mantissaBits : ℤ) * distance :=
          mul_le_mul_of_nonneg_left below (two_zpow_pos _).le
      _ ≤ margin := shows
  have top := limit_pos spec
  refine (clip_le_grid grid (by linarith) ?_).trans below
  rw [clip_of_lt finite]
  linarith

end Clip

end Nonlinear.FloatingPoint

namespace Nonlinear.BinaryScalar

open Float.Model (Format UnpackedFloat)
open Float.Model.UnpackedFloat
open FloatingPoint

variable {α : Type} [Scalar α] [BinaryScalar α] {x y z v : α} {q : ℚ}

/-- The rational that a number stands for. -/
def real (x : α) : ℚ := reach (format α) (value x)

theorem isFinite_value (x : α) : (value x).isFinite = Scalar.isFinite x := (isFinite_eq x).symm

theorem isNaN_value (x : α) : (value x).isNaN = Scalar.isNaN x := (isNaN_eq x).symm

theorem fits_value (x : α) : Fits (format α) (value x) := fits_unpack wide _

theorem canonical_value (x : α) : Canonical (format α) (value x) := (fits_iff.mp (fits_value x)).1

theorem abs_real_le (x : α) : |real x| ≤ limit (format α) := by
  have bound := ((abs_toRat_lt_iff wide (canonical_value x)).mpr (fits_value x)).le
  unfold real
  cases hx : value x with
  | infinity s => exact (abs_signed s (limit_pos _).le).le
  | zero | finite | notANumber =>
      rw [hx] at bound
      exact bound

theorem grid_real (x : α) : Grid (format α) (real x) := by
  have grid := (canonical_value x).grid
  unfold real
  cases hx : value x with
  | infinity s =>
      cases s with
      | negative => exact (grid_limit _).neg
      | positive => exact grid_limit _
  | zero | finite | notANumber =>
      rw [hx] at grid
      exact grid

theorem clip_real (x : α) : clip (format α) (real x) = real x :=
  clip_of_grid (grid_real x) (abs_real_le x)

theorem clip_le_real (h : q ≤ real x) : clip (format α) q ≤ real x :=
  (clip_mono h).trans_eq (clip_real x)

theorem real_le_clip (h : real x ≤ q) : real x ≤ clip (format α) q :=
  (clip_real x).symm.trans_le (clip_mono h)

theorem clip_mem_uIcc (h : q ∈ Set.uIcc (real x) (real y)) :
    clip (format α) q ∈ Set.uIcc (real x) (real y) := by
  rw [Set.mem_uIcc] at h ⊢
  exact h.imp (And.imp real_le_clip clip_le_real) (And.imp real_le_clip clip_le_real)

theorem isFinite_iff_real :
    Scalar.isFinite x = true ↔ Scalar.isNaN x = false ∧ |real x| < limit (format α) := by
  rw [← isFinite_value, ← isNaN_value, real]
  have bound := (abs_toRat_lt_iff wide (canonical_value x)).mpr (fits_value x)
  cases hx : value x with
  | infinity s => simp [UnpackedFloat.isFinite, reach, abs_signed s (limit_pos _).le]
  | notANumber => simp [UnpackedFloat.isFinite, UnpackedFloat.isNaN]
  | zero | finite =>
      rw [hx] at bound
      exact iff_of_true rfl ⟨rfl, bound⟩

@[simp]
theorem real_zero : real (0.0 : α) = 0 := by
  rw [real, value_zero]
  rfl

theorem lt_iff_real (hx : Scalar.isNaN x = false) (hy : Scalar.isNaN y = false) :
    x < y ↔ real x < real y := by
  have nx := (isNaN_value x).trans hx
  have ny := (isNaN_value y).trans hy
  rw [lt_iff_value]
  constructor
  · rintro ⟨-, -, less⟩
    exact reach_lt_of_rank wide nx ny (fits_value x) (fits_value y) less
  · intro less
    refine ⟨hx, hy, ?_⟩
    rcases lt_trichotomy (rank (value x)) (rank (value y)) with lt | eq | gt
    · exact lt
    · exact absurd (reach_eq_of_rank nx ny eq) less.ne
    · exact absurd (reach_lt_of_rank wide ny nx (fits_value y) (fits_value x) gt)
        (not_lt_of_gt less)

theorem le_iff_real (hx : Scalar.isNaN x = false) (hy : Scalar.isNaN y = false) :
    x ≤ y ↔ real x ≤ real y := by
  rw [← not_lt (a := real y), ← lt_iff_real hy hx]
  exact ⟨Scalar.not_lt_of_le, Scalar.le_of_not_lt hy hx⟩

theorem pos_iff_real (hx : Scalar.isNaN x = false) : 0.0 < x ↔ 0 < real x := by
  rw [lt_iff_real Scalar.isNaN_zero hx, real_zero]

theorem beq_zero_iff_real (hx : Scalar.isNaN x = false) : (x == 0.0) = true ↔ real x = 0 := by
  rw [LawfulScalar.beq_iff, le_iff_real hx Scalar.isNaN_zero, le_iff_real Scalar.isNaN_zero hx,
    real_zero, ← le_antisymm_iff]

theorem larger_spec (hx : Scalar.isFinite x = true) (hy : Scalar.isFinite y = true) :
    Scalar.isFinite (Scalar.larger x y) = true ∧
      real (Scalar.larger x y) = max (real x) (real y) := by
  have number := isNaN_of_isFinite hx
  have order := lt_iff_real number (isNaN_of_isFinite hy)
  unfold Scalar.larger
  split
  · rename_i below
    exact ⟨hy, (max_eq_right (order.mp below).le).symm⟩
  · rename_i above
    rw [order, not_lt] at above
    rw [number, if_neg Bool.false_ne_true]
    exact ⟨hx, (max_eq_left above).symm⟩

/-- What an operation gives whose exact result is `q`. -/
structure Rounded (z : α) (q : ℚ) : Prop where
  isNaN : Scalar.isNaN z = false
  real : real z = clip (format α) q

theorem value_of_bits {u : UnpackedFloat} (h : bits z = UnpackedFloat.pack (format α) u)
    (fits : Fits (format α) u) : value z = u := by
  rw [value, h]
  exact unpack_pack fits

theorem rounded_of_bits {u : UnpackedFloat} (rounds : RoundsTo (format α) u q)
    (h : bits z = UnpackedFloat.pack (format α) u) : Rounded z q := by
  obtain ⟨finite, canonical, exact⟩ := rounds
  have overflow := abs_toRat_lt_iff wide canonical
  by_cases fits : Fits (format α) u
  · have same := value_of_bits h fits
    constructor
    · apply isNaN_of_isFinite
      rw [← isFinite_value, same, finite]
    · have small := (overflow.mpr fits).le
      rw [exact] at small
      rw [BinaryScalar.real, same, reach_of_finite finite, exact, clip_of_le small]
  · cases u with
    | infinity | zero | notANumber => exact absurd trivial fits
    | finite s m e pos =>
        have same : value z = .infinity s := by
          rw [value, h]
          exact unpack_pack_overflow canonical fits
        have large := not_lt.mp (mt overflow.mp fits)
        constructor
        · rw [← isNaN_value, same]
          rfl
        · have nonneg : (0 : ℚ) ≤ m * 2 ^ e := by positivity
          rw [toRat, abs_signed s nonneg] at large
          rw [BinaryScalar.real, same, clip, ← exact]
          have limit_pos := limit_pos (format α)
          cases s with
          | positive =>
              show limit _ = max (-limit _) (min (limit _) (m * 2 ^ e : ℚ))
              rw [min_eq_left large, max_eq_right (by linarith)]
          | negative =>
              show -limit _ = max (-limit _) (min (limit _) (-(m * 2 ^ e) : ℚ))
              rw [min_eq_right (by linarith), max_eq_left (by linarith)]

section Operations

variable (hx : Scalar.isFinite x = true) (hy : Scalar.isFinite y = true)

include hx in
theorem real_of_finite : real x = toRat (value x) :=
  reach_of_finite ((isFinite_value x).trans hx)

include hx hy

theorem add_rounded : Rounded (x + y) (real x + real y) := by
  rw [real_of_finite hx, real_of_finite hy]
  exact rounded_of_bits (add_spec ((isFinite_value x).trans hx) ((isFinite_value y).trans hy)
    (canonical_value x) (canonical_value y)) (bits_add x y)

theorem sub_rounded : Rounded (x - y) (real x - real y) := by
  rw [real_of_finite hx, real_of_finite hy]
  exact rounded_of_bits (sub_spec ((isFinite_value x).trans hx) ((isFinite_value y).trans hy)
    (canonical_value x) (canonical_value y)) (bits_sub x y)

theorem mul_rounded : Rounded (x * y) (real x * real y) := by
  rw [real_of_finite hx, real_of_finite hy]
  exact rounded_of_bits (mul_spec ((isFinite_value x).trans hx) ((isFinite_value y).trans hy)
    (canonical_value x) (canonical_value y)) (bits_mul x y)

theorem div_rounded (nonzero : real y ≠ 0) : Rounded (x / y) (real x / real y) := by
  rw [real_of_finite hy] at nonzero
  rw [real_of_finite hx, real_of_finite hy]
  exact rounded_of_bits (div_spec ((isFinite_value x).trans hx) ((isFinite_value y).trans hy)
    nonzero) (bits_div x y)

end Operations

theorem fits_neg {spec : Format} {u : UnpackedFloat} (h : Fits spec u) : Fits spec u.neg := by
  cases u with
  | finite => exact h
  | infinity | zero | notANumber => trivial

theorem value_neg (x : α) : value (-x) = (value x).neg :=
  value_of_bits (bits_neg x) (fits_neg (fits_value x))

theorem isNaN_neg (x : α) : Scalar.isNaN (-x) = Scalar.isNaN x := by
  rw [← isNaN_value, ← isNaN_value, value_neg]
  cases value x <;> rfl

theorem isFinite_neg (x : α) : Scalar.isFinite (-x) = Scalar.isFinite x := by
  rw [← isFinite_value, ← isFinite_value, value_neg]
  cases value x <;> rfl

theorem real_neg (x : α) : real (-x) = -real x := by
  rw [real, real, value_neg]
  cases value x with
  | infinity s => cases s <;> simp [reach, UnpackedFloat.neg, signed]
  | finite s m e pos => exact toRat_neg (.finite s m e pos)
  | zero s => exact toRat_neg (.zero s)
  | notANumber => exact toRat_neg .notANumber

theorem real_magnitude (x : α) : real (Scalar.magnitude x) = |real x| := by
  rw [real, value_magnitude, real]
  cases value x with
  | finite s m e =>
      exact (abs_signed s (mul_nonneg (Nat.cast_nonneg m) (two_zpow_pos e).le)).symm
  | infinity s => exact (abs_signed s (limit_pos _).le).symm
  | zero | notANumber => exact abs_zero.symm

theorem isFinite_of_abs_lt (number : Scalar.isNaN z = false) (lt : |real z| < |real x|) :
    Scalar.isFinite z = true :=
  isFinite_iff_real.mpr ⟨number, lt.trans_le (abs_real_le x)⟩

theorem isFinite_of_mem (number : Scalar.isNaN z = false) (hx : Scalar.isFinite x = true)
    (hy : Scalar.isFinite y = true) (mem : real z ∈ Set.uIcc (real x) (real y)) :
    Scalar.isFinite z = true := by
  refine isFinite_iff_real.mpr ⟨number, ?_⟩
  obtain ⟨lower_x, upper_x⟩ := abs_lt.mp (isFinite_iff_real.mp hx).2
  obtain ⟨lower_y, upper_y⟩ := abs_lt.mp (isFinite_iff_real.mp hy).2
  rw [abs_lt]
  rcases Set.mem_uIcc.mp mem with ⟨low, high⟩ | ⟨low, high⟩ <;> constructor <;> linarith

/-! Rounding is monotone and leaves numbers alone, so an exact result and the rounded one are on
the same side of every number. -/

namespace Rounded

variable (h : Rounded z q)

include h

theorem real_le (le : q ≤ BinaryScalar.real v) : BinaryScalar.real z ≤ BinaryScalar.real v :=
  h.real.trans_le (clip_le_real le)

theorem le_real (le : BinaryScalar.real v ≤ q) : BinaryScalar.real v ≤ BinaryScalar.real z :=
  (real_le_clip le).trans_eq h.real.symm

theorem nonneg (le : 0 ≤ q) : 0 ≤ BinaryScalar.real z :=
  (clip_zero.symm.trans_le (clip_mono le)).trans_eq h.real.symm

theorem nonpos (le : q ≤ 0) : BinaryScalar.real z ≤ 0 :=
  h.real.trans_le ((clip_mono le).trans_eq clip_zero)

theorem le_of_lt (lt : BinaryScalar.real v < BinaryScalar.real z) : BinaryScalar.real v ≤ q :=
  (le_of_not_ge fun le => not_le_of_gt lt (h.real_le le))

theorem ge_of_lt (lt : BinaryScalar.real z < BinaryScalar.real v) : q ≤ BinaryScalar.real v :=
  (le_of_not_ge fun le => not_le_of_gt lt (h.le_real le))

theorem mem_uIcc (mem : q ∈ Set.uIcc (BinaryScalar.real x) (BinaryScalar.real y)) :
    BinaryScalar.real z ∈ Set.uIcc (BinaryScalar.real x) (BinaryScalar.real y) :=
  h.real ▸ clip_mem_uIcc mem

theorem isFinite (hx : Scalar.isFinite x = true) (hy : Scalar.isFinite y = true)
    (mem : q ∈ Set.uIcc (BinaryScalar.real x) (BinaryScalar.real y)) :
    Scalar.isFinite z = true :=
  isFinite_of_mem h.isNaN hx hy (h.mem_uIcc mem)

theorem isFinite_of_le (hx : Scalar.isFinite x = true) (nonneg : 0 ≤ q)
    (le : q ≤ BinaryScalar.real x) : Scalar.isFinite z = true := by
  refine h.isFinite LawfulScalar.isFinite_zero hx ?_
  rw [real_zero]
  exact Set.mem_uIcc.mpr (.inl ⟨nonneg, le⟩)

theorem le_grid {v : ℚ} (grid : Grid (format α) v) (nonneg : 0 ≤ v) (le : q ≤ v) :
    BinaryScalar.real z ≤ v :=
  h.real.trans_le (clip_le_grid grid (by linarith [limit_pos (format α)]) le)

theorem abs_le_grid {v : ℚ} (grid : Grid (format α) v) (le : |q| ≤ v) :
    |BinaryScalar.real z| ≤ v := by
  have nonneg : 0 ≤ v := (abs_nonneg q).trans le
  rw [h.real, abs_clip]
  exact clip_le_grid grid (by linarith [limit_pos (format α)]) le

theorem isFinite_of_abs {v : ℚ} (grid : Grid (format α) v) (lt : v < limit (format α))
    (le : |q| ≤ v) : Scalar.isFinite z = true :=
  isFinite_iff_real.mpr ⟨h.isNaN, (h.abs_le_grid grid le).trans_lt lt⟩

end Rounded

/-- A finite number whose value is known. -/
structure Stands (x : α) (q : ℚ) : Prop where
  isFinite : Scalar.isFinite x = true
  real : real x = q

theorem Rounded.stands_zero (h : Rounded z 0) : Stands z 0 := by
  have zero : BinaryScalar.real z = 0 := h.real.trans clip_zero
  refine ⟨isFinite_iff_real.mpr ⟨h.isNaN, ?_⟩, zero⟩
  rw [zero, abs_zero]
  exact limit_pos _

end Nonlinear.BinaryScalar

namespace Nonlinear

open BinaryScalar

/-- The constants of the solvers have the values that are written, and the format has enough
digits to tell them apart. -/
class BinaryConstants (α : Type) [Scalar α] [BinaryScalar α] : Prop where
  precise : 3 ≤ (BinaryScalar.format α).mantissaBits
  one : Stands (1.0 : α) 1
  two : Stands (2.0 : α) 2
  three : Stands (3.0 : α) 3
  three_quarters : Stands (0.75 : α) (3 / 4)
  epsilon : Stands (Scalar.epsilon : α) (2 ^ (1 - (BinaryScalar.format α).mantissaBits : ℤ))
  isFinite_sqrtEpsilon : Scalar.isFinite (Scalar.sqrtEpsilon : α) = true
  sqrtEpsilon_ge :
    2 ^ (1 - (BinaryScalar.format α).mantissaBits : ℤ) ≤ real (Scalar.sqrtEpsilon : α)
  sqrtEpsilon_le : real (Scalar.sqrtEpsilon : α) ≤ 1
  isFinite_golden : Scalar.isFinite (Scalar.golden : α) = true
  golden_ge : 1 / 3 ≤ real (Scalar.golden : α)
  golden_le : real (Scalar.golden : α) ≤ 3 / 4

instance : BinaryConstants Float where
  precise := by decide
  one := ⟨by decide +kernel, by decide +kernel⟩
  two := ⟨by decide +kernel, by decide +kernel⟩
  three := ⟨by decide +kernel, by decide +kernel⟩
  three_quarters := ⟨by decide +kernel, by decide +kernel⟩
  epsilon := ⟨by decide +kernel, by decide +kernel⟩
  isFinite_sqrtEpsilon := by decide +kernel
  sqrtEpsilon_ge := by decide +kernel
  sqrtEpsilon_le := by decide +kernel
  isFinite_golden := by decide +kernel
  golden_ge := by decide +kernel
  golden_le := by decide +kernel

instance : BinaryConstants Float32 where
  precise := by decide
  one := ⟨by decide +kernel, by decide +kernel⟩
  two := ⟨by decide +kernel, by decide +kernel⟩
  three := ⟨by decide +kernel, by decide +kernel⟩
  three_quarters := ⟨by decide +kernel, by decide +kernel⟩
  epsilon := ⟨by decide +kernel, by decide +kernel⟩
  isFinite_sqrtEpsilon := by decide +kernel
  sqrtEpsilon_ge := by decide +kernel
  sqrtEpsilon_le := by decide +kernel
  isFinite_golden := by decide +kernel
  golden_ge := by decide +kernel
  golden_le := by decide +kernel

end Nonlinear
