import Mathlib
import Nonlinear.Proofs.FloatingPoint.Nearest

/-! # The operations of binary numbers round once

Sums, differences, products and quotients of finite numbers are computed on mantissas and
exponents, with a round bit and a sticky bit for what is shifted out.  Each of them gives the
exact rational, rounded to nearest.  Overflow is left to packing.
-/

namespace Nonlinear.FloatingPoint

open Float.Model (Format UnpackedFloat totalExponent)
open Float.Model.UnpackedFloat

/-- A rational with a sign put before it. -/
def signed : Sign → ℚ → ℚ
  | .negative, q => -q
  | .positive, q => q

/-- The rational that a finite number stands for.  Zero is given for the others. -/
def toRat : UnpackedFloat → ℚ
  | .finite s m e _ => signed s (m * 2 ^ e)
  | _ => 0

/-- Mantissa and exponent are those of the format, but the exponent may be too large for it. -/
def Canonical (spec : Format) : UnpackedFloat → Prop
  | .finite _ m e _ =>
    m < 2 ^ spec.mantissaBits ∧ spec.minExponent ≤ e ∧
      (2 ^ (spec.mantissaBits - 1) ≤ m ∨ e = spec.minExponent)
  | _ => True

/-- What an operation on finite numbers comes to: the exact rational, rounded. -/
structure RoundsTo (spec : Format) (u : UnpackedFloat) (q : ℚ) : Prop where
  finite : u.isFinite = true
  canonical : Canonical spec u
  value : toRat u = nearest spec q

variable {spec : Format}

theorem signed_mul (s t : Sign) (p q : ℚ) : signed (s * t) (p * q) = signed s p * signed t q := by
  cases s <;> cases t
  · exact (neg_mul_neg p q).symm
  · exact (neg_mul p q).symm
  · exact (mul_neg p q).symm
  · rfl

theorem signed_div (s t : Sign) (p q : ℚ) : signed (s / t) (p / q) = signed s p / signed t q := by
  cases s <;> cases t
  · exact (neg_div_neg_eq p q).symm
  · exact (neg_div q p).symm
  · exact (div_neg p).symm
  · rfl

theorem signed_apply (s : Sign) (n : ℤ) : ((s.apply n : ℤ) : ℚ) = signed s n := by
  cases s <;> simp [signed, Sign.apply]

theorem nearest_signed (s : Sign) (q : ℚ) :
    nearest spec (signed s q) = signed s (nearest spec q) := by
  cases s
  · exact nearest_neg q
  · rfl

theorem Canonical.grid {u : UnpackedFloat} (h : Canonical spec u) : Grid spec (toRat u) := by
  cases u with
  | finite s m e pos =>
      obtain ⟨bound, le, -⟩ := h
      have grid : Grid spec (m * 2 ^ e) := by
        refine ⟨m, e, ?_, le, by push_cast; rfl⟩
        rw [abs_of_nonneg (by positivity)]
        exact_mod_cast bound
      cases s with
      | negative => exact grid.neg
      | positive => exact grid
  | infinity | notANumber | zero => exact .zero

section Mantissa

/-- The mantissa and the two bits after it say between which half integers a rational lies. -/
structure Represents (em : ExtendedMantissa) (q : ℚ) : Prop where
  lower : (em.mantissa + em.roundBit.toNat / 2 : ℚ) ≤ q
  upper : q < em.mantissa + em.roundBit.toNat / 2 + 1 / 2
  sticky : em.stickyBit = false ↔ q = em.mantissa + em.roundBit.toNat / 2

theorem represents_exact (m : ℕ) : Represents (.ofMantissaAndAccuracy m .exact) m := by
  constructor <;> simp [ExtendedMantissa.ofMantissaAndAccuracy]

/-- A quotient of naturals, cut off at the point. -/
theorem represents_fraction (n : ℕ) {d : ℕ} (pos : 0 < d) :
    Represents (.ofMantissaAndAccuracy (n / d) (accuracyOfFraction (n % d) d)) (n / d) := by
  have pos' : (0 : ℚ) < d := by exact_mod_cast pos
  have less : (n % d : ℕ) < d := Nat.mod_lt n pos
  have split : (n : ℚ) / d = (n / d : ℕ) + ((n % d : ℕ) : ℚ) / d := by
    have cut : (n : ℚ) = d * (n / d : ℕ) + (n % d : ℕ) := by
      exact_mod_cast (Nat.div_add_mod n d).symm
    field_simp
    linarith
  rw [split]
  generalize n / d = k at *
  generalize n % d = r at *
  rw [accuracyOfFraction]
  split
  · rename_i zero
    rw [zero]
    simpa using represents_exact k
  · rename_i some
    have some' : (0 : ℚ) < r := by exact_mod_cast Nat.pos_of_ne_zero some
    have less' : (r : ℚ) < d := by exact_mod_cast less
    have fraction : (0 : ℚ) < r / d ∧ (r : ℚ) / d < 1 :=
      ⟨by positivity, (div_lt_one pos').mpr less'⟩
    rcases lt_trichotomy (2 * r) d with half | half | half
    · have half' : (r : ℚ) / d < 1 / 2 := by
        rw [div_lt_div_iff₀ pos' two_pos]
        exact_mod_cast (by omega : r * 2 < 1 * d)
      rw [compare_lt_iff_lt.mpr half]
      constructor
      · simp [ExtendedMantissa.ofMantissaAndAccuracy]
        linarith
      · simp [ExtendedMantissa.ofMantissaAndAccuracy]
        linarith
      · simp [ExtendedMantissa.ofMantissaAndAccuracy]
        omega
    · have half' : (r : ℚ) / d = 1 / 2 := by
        rw [div_eq_div_iff pos'.ne' two_ne_zero]
        exact_mod_cast (by omega : r * 2 = 1 * d)
      rw [compare_eq_iff_eq.mpr half]
      constructor <;> simp [ExtendedMantissa.ofMantissaAndAccuracy] <;> linarith
    · have half' : (1 : ℚ) / 2 < r / d := by
        rw [div_lt_div_iff₀ two_pos pos']
        exact_mod_cast (by omega : 1 * d < r * 2)
      rw [compare_gt_iff_gt.mpr half]
      constructor <;> simp [ExtendedMantissa.ofMantissaAndAccuracy] <;> linarith

variable {em : ExtendedMantissa} {q : ℚ}

theorem Represents.floor (h : Represents em q) : ⌊q⌋ = em.mantissa := by
  have lower := h.lower
  have upper := h.upper
  rw [Int.floor_eq_iff]
  push_cast
  cases round : em.roundBit <;> simp [round] at lower upper <;> constructor <;> linarith

theorem Represents.shiftRightOne (h : Represents em q) : Represents em.shiftRightOne (q / 2) := by
  have parts : (em.mantissa : ℚ) = 2 * (em.mantissa / 2 : ℕ) + (em.mantissa % 2 : ℕ) := by
    exact_mod_cast (Nat.div_add_mod em.mantissa 2).symm
  have bit : (em.mantissa % 2 != 0).toNat = em.mantissa % 2 := by
    rcases Nat.mod_two_eq_zero_or_one em.mantissa with eq | eq <;> rw [eq] <;> rfl
  have le := Int.floor_le q
  have lt := Int.lt_floor_add_one q
  rw [h.floor] at le lt
  push_cast at le lt
  constructor
  · simp only [ExtendedMantissa.shiftRightOne, bit]
    linarith
  · simp only [ExtendedMantissa.shiftRightOne, bit]
    linarith
  · simp only [ExtendedMantissa.shiftRightOne, bit, Bool.or_eq_false_iff, h.sticky]
    constructor
    · rintro ⟨round, eq⟩
      simp only [round, Bool.toNat_false] at eq
      push_cast at eq
      linarith
    · intro eq
      have lower := h.lower
      have upper := h.upper
      have whole : q = em.mantissa := by linarith
      cases round : em.roundBit with
      | false => simpa using whole
      | true =>
          simp [round] at lower
          linarith

theorem Represents.shiftRight (h : Represents em q) (n : ℕ) :
    Represents (em >>> n) (q / 2 ^ n) := by
  induction n with
  | zero =>
      rw [pow_zero, div_one]
      exact h
  | succ n ih =>
      rw [pow_succ, ← div_div]
      exact ih.shiftRightOne

theorem Represents.roundedMantissa (h : Represents em q) :
    (em.roundedMantissa : ℤ) = roundEven q := by
  have fract : Int.fract q = q - em.mantissa := by
    rw [← Int.self_sub_floor, h.floor]
    push_cast
    rfl
  have floor := h.floor
  obtain ⟨m, round, sticky⟩ := em
  obtain ⟨lower, upper, exact_iff⟩ := h
  dsimp only at lower upper exact_iff fract floor
  rw [roundEven, fract, floor, ExtendedMantissa.roundedMantissa]
  cases round <;> cases sticky <;> simp at lower upper exact_iff <;>
    simp only [ExtendedMantissa.accuracy, Accuracy.roundToNearestEven]
  · rw [if_pos (by linarith)]
  · rw [if_pos (by linarith)]
  · rw [if_neg (by linarith), if_neg (by linarith)]
    push_cast
    rfl
  · have above : m + 2⁻¹ < q := lt_of_le_of_ne lower (Ne.symm exact_iff)
    rw [if_neg (by linarith), if_pos (by linarith)]
    push_cast
    rfl

end Mantissa

section Round

theorem minExponent_le_target (e : ℤ) : spec.minExponent ≤ spec.targetExponent e := le_max_right _ _

theorem shiftToTargetExponent_eq (m : ℕ) (e : ℤ) (acc : Accuracy) :
    shiftToTargetExponent spec m e acc =
      (ExtendedMantissa.ofMantissaAndAccuracy m acc >>>
          (spec.targetExponent (totalExponent m e) - e).toNat,
        e + (spec.targetExponent (totalExponent m e) - e).toNat) := rfl

theorem Represents.floor_mantissa {m : ℕ} {acc : Accuracy} {q : ℚ}
    (h : Represents (.ofMantissaAndAccuracy m acc) q) : ⌊q⌋ = m := by
  rw [h.floor]
  cases acc with
  | exact => rfl
  | inexact o => cases o <;> rfl

theorem target_of_zero {e : ℤ} (enough : e ≤ spec.minExponent ∨ 2 ^ (spec.mantissaBits - 1) ≤ 0) :
    spec.targetExponent (totalExponent 0 e) = spec.minExponent := by
  have low : e ≤ spec.minExponent := by
    refine enough.resolve_right fun many => ?_
    have := Nat.two_pow_pos (spec.mantissaBits - 1)
    omega
  have log : Nat.log2 0 = 0 := rfl
  simp only [Format.targetExponent, totalExponent, Format.mantissaBits, log]
  omega

theorem target_ge {m : ℕ} {e : ℤ}
    (enough : e ≤ spec.minExponent ∨ 2 ^ (spec.mantissaBits - 1) ≤ m) :
    e ≤ spec.targetExponent (totalExponent m e) := by
  rcases enough with low | many
  · exact low.trans (minExponent_le_target _)
  · have log : spec.mantissaBits - 1 ≤ m.log2 := by
      have := Nat.two_pow_pos (spec.mantissaBits - 1)
      exact (Nat.le_log2 (by omega)).mpr many
    simp only [Format.targetExponent, totalExponent]
    omega

/-- The last place of a rational is where its mantissa is cut off. -/
theorem unit_eq_target {m : ℕ} {e : ℤ} {acc : Accuracy} {q : ℚ}
    (h : Represents (.ofMantissaAndAccuracy m acc) q) (nonzero : q ≠ 0)
    (enough : e ≤ spec.minExponent ∨ 2 ^ (spec.mantissaBits - 1) ≤ m) :
    unit spec (q * 2 ^ e) = spec.targetExponent (totalExponent m e) := by
  have le := Int.floor_le q
  have lt := Int.lt_floor_add_one q
  rw [h.floor_mantissa] at le lt
  push_cast at le lt
  have nonneg : 0 ≤ q := le_trans (by positivity) le
  have pos : 0 < q := lt_of_le_of_ne nonneg (Ne.symm nonzero)
  have pos' : 0 < q * 2 ^ e := mul_pos pos (two_zpow_pos e)
  rcases Nat.eq_zero_or_pos m with rfl | some
  · have least := target_of_zero enough
    rw [least]
    refine le_antisymm (unit_le pos'.ne' ?_ (le_refl _)) (minExponent_le_unit _ _)
    have low : e ≤ spec.minExponent := by
      rw [← least]
      exact target_ge enough
    rw [abs_of_pos pos']
    calc q * 2 ^ e < 2 ^ e := mul_lt_of_lt_one_left (two_zpow_pos e) (by simpa using lt)
      _ ≤ 2 ^ (spec.minExponent + spec.mantissaBits) :=
          zpow_le_zpow_right₀ one_le_two (by omega)
  · rw [unit, abs_of_pos pos', totalExponent]
    have low : (2 : ℚ) ^ (m.log2 + e : ℤ) ≤ q * 2 ^ e := by
      rw [zpow_add₀ two_ne_zero, zpow_natCast]
      refine mul_le_mul_of_nonneg_right (le_trans ?_ le) (two_zpow_pos e).le
      exact_mod_cast Nat.log2_self_le some.ne'
    have high : q * 2 ^ e < 2 ^ (m.log2 + e + 1 : ℤ) := by
      rw [add_right_comm, zpow_add₀ two_ne_zero]
      refine mul_lt_mul_of_pos_right (lt.trans_le ?_) (two_zpow_pos e)
      have := Nat.lt_log2_self (n := m)
      exact_mod_cast Nat.succ_le_of_lt this
    have below := (Int.zpow_le_iff_le_log (b := 2) one_lt_two pos').mp low
    have above := (Int.lt_zpow_iff_log_lt (b := 2) one_lt_two pos').mp high
    congr 1
    omega

/-- A mantissa that fits is left alone. -/
theorem shift_fitting {m : ℕ} {t : ℤ} (bound : m < 2 ^ spec.mantissaBits)
    (le : spec.minExponent ≤ t) :
    shiftToTargetExponent spec m t .exact = (.ofMantissaAndAccuracy m .exact, t) := by
  have bits : 0 < spec.mantissaBits := by simp only [Format.mantissaBits]; omega
  have log : m.log2 + 1 ≤ spec.mantissaBits := by
    rcases Nat.eq_zero_or_pos m with zero | some
    · rw [zero]
      exact bits
    · exact (Nat.log2_lt some.ne').mpr bound
  have none : (spec.targetExponent (totalExponent m t) - t).toNat = 0 := by
    simp only [Format.targetExponent, totalExponent]
    omega
  rw [shiftToTargetExponent_eq, none]
  exact congrArg _ (add_zero t)

/-- A power of two with one digit too many loses a zero. -/
theorem shift_carry {t : ℤ} (le : spec.minExponent ≤ t) :
    shiftToTargetExponent spec (2 ^ spec.mantissaBits) t .exact =
      (⟨2 ^ (spec.mantissaBits - 1), false, false⟩, t + 1) := by
  have bits : spec.mantissaBits = spec.mantissaBits - 1 + 1 := by
    simp only [Format.mantissaBits]
    omega
  have one : (spec.targetExponent (totalExponent (2 ^ spec.mantissaBits) t) - t).toNat = 1 := by
    simp only [Format.targetExponent, totalExponent, Nat.log2_two_pow]
    omega
  have halves : 2 ^ spec.mantissaBits / 2 = 2 ^ (spec.mantissaBits - 1) := by
    rw [bits, pow_succ, Nat.mul_div_cancel _ two_pos, Nat.add_sub_cancel]
  have even : 2 ^ spec.mantissaBits % 2 = 0 := by
    rw [bits, pow_succ, Nat.mul_mod_left]
  rw [shiftToTargetExponent_eq, one]
  refine Prod.ext ?_ rfl
  show ExtendedMantissa.shiftRightOne ⟨2 ^ spec.mantissaBits, false, false⟩ = _
  rw [ExtendedMantissa.shiftRightOne, halves, even]
  rfl

/-- What a number with a mantissa of the format, or one more, is made of in the end. -/
def settle (s : Sign) (m : ℕ) (e : ℤ) : UnpackedFloat :=
  if h : m = 0 then .zero s else .finite s m e (Nat.pos_of_ne_zero h)

theorem toRat_settle (s : Sign) (m : ℕ) (e : ℤ) : toRat (settle s m e) = signed s (m * 2 ^ e) := by
  unfold settle
  split
  · rename_i zero
    cases s <;> simp [toRat, signed, zero]
  · rfl

theorem isFinite_settle (s : Sign) (m : ℕ) (e : ℤ) : (settle s m e).isFinite = true := by
  unfold settle
  split <;> rfl

/-- The mantissa that is rounded to, at the last place of the rational. -/
structure Mantissa (spec : Format) (q : ℚ) (m : ℕ) (t : ℤ) : Prop where
  value : (m * 2 ^ t : ℚ) = nearest spec q
  bound : m ≤ 2 ^ spec.mantissaBits
  least : spec.minExponent ≤ t
  lead : 2 ^ (spec.mantissaBits - 1) ≤ m ∨ t = spec.minExponent

theorem mantissa_at_unit {q : ℚ} {r : ℕ} (pos : 0 < q)
    (h : (r : ℤ) = roundEven (q / 2 ^ unit spec q)) : Mantissa spec q r (unit spec q) := by
  have value : (r * 2 ^ unit spec q : ℚ) = nearest spec q := by
    rw [nearest, ← h]
    rfl
  refine ⟨value, ?_, minExponent_le_unit spec q, ?_⟩
  · have below : nearest spec q ≤ _ := nearest_le_unit pos
    rw [← value] at below
    exact_mod_cast le_of_mul_le_mul_right below (two_zpow_pos _)
  · rcases (minExponent_le_unit spec q).eq_or_lt with least | above
    · exact .inr least.symm
    · left
      have below := unit_le_nearest pos above
      rw [← value] at below
      exact_mod_cast le_of_mul_le_mul_right below (two_zpow_pos _)

/-- Shifted to its last place, a mantissa is rounded as the rational is. -/
theorem shift_spec {m : ℕ} {e : ℤ} {acc : Accuracy} {q : ℚ}
    (h : Represents (.ofMantissaAndAccuracy m acc) q)
    (enough : e ≤ spec.minExponent ∨ 2 ^ (spec.mantissaBits - 1) ≤ m) :
    let t := spec.targetExponent (totalExponent m e)
    (shiftToTargetExponent spec m e acc).2 = t ∧
      ((shiftToTargetExponent spec m e acc).1.roundedMantissa : ℤ) =
        roundEven (q * 2 ^ e / 2 ^ t) := by
  intro t
  obtain ⟨k, shift⟩ := Int.le.dest (target_ge enough)
  have amount : (t - e).toNat = k := by omega
  rw [shiftToTargetExponent_eq, amount]
  refine ⟨shift, (h.shiftRight k).roundedMantissa.trans (congrArg roundEven ?_)⟩
  rw [show t = e + k from shift.symm, zpow_add₀ two_ne_zero, zpow_natCast]
  field_simp

theorem roundedMantissa_spec {m : ℕ} {e : ℤ} {acc : Accuracy} {q : ℚ}
    (h : Represents (.ofMantissaAndAccuracy m acc) q)
    (enough : e ≤ spec.minExponent ∨ 2 ^ (spec.mantissaBits - 1) ≤ m) :
    Mantissa spec (q * 2 ^ e) (shiftToTargetExponent spec m e acc).1.roundedMantissa
      (shiftToTargetExponent spec m e acc).2 := by
  obtain ⟨place, rounded⟩ := shift_spec h enough
  rw [place]
  generalize (shiftToTargetExponent spec m e acc).1.roundedMantissa = r at rounded ⊢
  have floor := h.floor_mantissa
  by_cases zero : q = 0
  · obtain rfl : m = 0 := by
      rw [zero, Int.floor_zero] at floor
      omega
    have nothing : r = 0 := by
      rw [zero, zero_mul, zero_div, ← Int.cast_zero, roundEven_intCast] at rounded
      exact_mod_cast rounded
    rw [target_of_zero enough, nothing, zero, zero_mul]
    refine ⟨?_, Nat.zero_le _, le_refl _, .inr rfl⟩
    rw [nearest_zero, Nat.cast_zero, zero_mul]
  · have nonneg : 0 ≤ q := by
      have le := Int.floor_le q
      rw [floor] at le
      exact le_trans (by positivity) le
    have pos : 0 < q * 2 ^ e :=
      mul_pos (lt_of_le_of_ne nonneg (Ne.symm zero)) (two_zpow_pos e)
    rw [← unit_eq_target h zero enough] at rounded ⊢
    exact mantissa_at_unit pos rounded

/-- Rounding a mantissa with its bits gives the nearest point of the grid. -/
theorem roundWithAccuracy_spec (s : Sign) {m : ℕ} {e : ℤ} {acc : Accuracy} {q : ℚ}
    (h : Represents (.ofMantissaAndAccuracy m acc) q)
    (enough : e ≤ spec.minExponent ∨ 2 ^ (spec.mantissaBits - 1) ≤ m) :
    RoundsTo spec (roundWithAccuracy spec s m e acc) (signed s (q * 2 ^ e)) := by
  obtain ⟨value, bound, least, lead⟩ := roundedMantissa_spec h enough
  generalize first : shiftToTargetExponent spec m e acc = shifted at value bound least lead
  obtain ⟨em, t⟩ := shifted
  dsimp only at bound least lead
  have eq : roundWithAccuracy spec s m e acc =
      settle s (shiftToTargetExponent spec em.roundedMantissa t .exact).1.mantissa
        (shiftToTargetExponent spec em.roundedMantissa t .exact).2 := by
    rw [roundWithAccuracy, first]
    rfl
  rw [eq]
  rcases bound.lt_or_eq with fits | carry
  · rw [shift_fitting fits least]
    refine ⟨isFinite_settle _ _ _, ?_, ?_⟩
    · unfold settle
      split
      · trivial
      · exact ⟨fits, least, lead⟩
    · rw [toRat_settle, nearest_signed, ← value]
      rfl
  · have bits : spec.mantissaBits = spec.mantissaBits - 1 + 1 := by
      simp only [Format.mantissaBits]
      omega
    rw [carry, shift_carry least]
    refine ⟨isFinite_settle _ _ _, ?_, ?_⟩
    · unfold settle
      split
      · trivial
      · exact ⟨Nat.pow_lt_pow_right one_lt_two (by omega), by omega, .inl (le_refl _)⟩
    · have double : (2 : ℚ) ^ spec.mantissaBits = 2 ^ (spec.mantissaBits - 1) * 2 := by
        rw [← pow_succ, ← bits]
      rw [toRat_settle, nearest_signed, ← value, carry]
      congr 1
      push_cast
      rw [zpow_add_one₀ two_ne_zero, double]
      ring

theorem decreaseExponent_eq (m : ℕ) (e t : ℤ) :
    decreaseExponent m e t = (m * 2 ^ (e - t).toNat, e - (e - t).toNat) := by
  rw [decreaseExponent, Nat.shiftLeft_eq]

theorem decreaseExponent_value (m : ℕ) (e t : ℤ) :
    ((decreaseExponent m e t).1 * 2 ^ (decreaseExponent m e t).2 : ℚ) = m * 2 ^ e := by
  rw [decreaseExponent_eq]
  push_cast
  rw [mul_assoc, ← zpow_natCast, ← zpow_add₀ two_ne_zero]
  congr 2
  omega

/-- After its exponent is decreased, a number has digits enough to be cut off. -/
theorem decreaseExponent_enough {m : ℕ} (e : ℤ) (some : 0 < m) :
    let t := spec.targetExponent (totalExponent m e)
    (decreaseExponent m e t).2 ≤ spec.minExponent ∨
      2 ^ (spec.mantissaBits - 1) ≤ (decreaseExponent m e t).1 := by
  intro t
  have lead := Nat.log2_self_le some.ne'
  rw [decreaseExponent_eq]
  rcases le_or_gt t spec.minExponent with low | high
  · left
    dsimp only
    omega
  · right
    have target : t = m.log2 + 1 + e - spec.mantissaBits := by
      simp only [t, Format.targetExponent, totalExponent] at high ⊢
      omega
    calc 2 ^ (spec.mantissaBits - 1) ≤ 2 ^ (m.log2 + (e - t).toNat) :=
          Nat.pow_le_pow_right two_pos (by omega)
      _ = 2 ^ m.log2 * 2 ^ (e - t).toNat := Nat.pow_add _ _ _
      _ ≤ m * 2 ^ (e - t).toNat := Nat.mul_le_mul_right _ lead

theorem round_spec (s : Sign) {m : ℕ} (e : ℤ) (some : 0 < m) :
    RoundsTo spec (UnpackedFloat.round spec s m e) (signed s (m * 2 ^ e)) := by
  rw [← decreaseExponent_value m e (spec.targetExponent (totalExponent m e))]
  exact roundWithAccuracy_spec s (represents_exact _) (decreaseExponent_enough e some)

theorem normalize_spec (m e : ℤ) (zeroSign : Sign) :
    RoundsTo spec (normalize spec m e zeroSign) (m * 2 ^ e) := by
  unfold UnpackedFloat.normalize
  rcases lt_trichotomy m 0 with neg | zero | pos
  · rw [compare_lt_iff_lt.mpr neg]
    have rounds : RoundsTo spec _ (signed .negative ((-m).toNat * 2 ^ e)) :=
      round_spec .negative e (by omega)
    have cast : (((-m).toNat : ℕ) : ℚ) = -m := by
      exact_mod_cast Int.toNat_of_nonneg (by omega : 0 ≤ -m)
    rwa [cast, signed, neg_mul, neg_neg] at rounds
  · rw [compare_eq_iff_eq.mpr zero, zero, Int.cast_zero, zero_mul]
    exact ⟨rfl, trivial, nearest_zero.symm⟩
  · rw [compare_gt_iff_gt.mpr pos]
    have rounds : RoundsTo spec _ (signed .positive (m.toNat * 2 ^ e)) :=
      round_spec .positive e (by omega)
    have cast : ((m.toNat : ℕ) : ℚ) = m := by
      exact_mod_cast Int.toNat_of_nonneg (by omega : 0 ≤ m)
    rwa [cast] at rounds

end Round

section Operations

variable {u v : UnpackedFloat}

/-- A number of the format is its own rounding. -/
theorem roundsTo_self (finite : u.isFinite = true) (h : Canonical spec u) :
    RoundsTo spec u (toRat u) :=
  ⟨finite, h, (nearest_of_grid h.grid).symm⟩

theorem roundsTo_zero (s : Sign) : RoundsTo spec (.zero s) 0 :=
  ⟨rfl, trivial, nearest_zero.symm⟩

theorem decreaseExponent_apply (s : Sign) (m : ℕ) {e t : ℤ} (pos : 0 < m) (le : t ≤ e) :
    ((s.apply ((decreaseExponent m e t).1 : ℤ) : ℤ) : ℚ) * 2 ^ t = toRat (.finite s m e pos) := by
  have value := decreaseExponent_value m e t
  have last : (decreaseExponent m e t).2 = t := by
    rw [decreaseExponent_eq]
    dsimp only
    omega
  rw [last] at value
  rw [signed_apply]
  cases s with
  | negative => simp [toRat, signed, ← value]
  | positive => simp [toRat, signed, ← value]

theorem toRat_neg (u : UnpackedFloat) : toRat u.neg = -toRat u := by
  cases u with
  | finite s m e =>
      cases s with
      | negative => exact (neg_neg _).symm
      | positive => rfl
  | infinity | zero | notANumber => simp [UnpackedFloat.neg, toRat]

theorem add_spec (hu : u.isFinite = true) (hv : v.isFinite = true) (cu : Canonical spec u)
    (cv : Canonical spec v) : RoundsTo spec (UnpackedFloat.add spec u v) (toRat u + toRat v) := by
  cases u with
  | notANumber | infinity => cases hu
  | zero s =>
      cases v with
      | notANumber | infinity => cases hv
      | zero t =>
          show RoundsTo spec _ (0 + 0)
          rw [add_zero]
          cases s <;> cases t <;> exact roundsTo_zero _
      | finite t n k pos =>
          have := roundsTo_self hv cv
          rwa [← zero_add (toRat _)] at this
  | finite s m e pos =>
      cases v with
      | notANumber | infinity => cases hv
      | zero t =>
          have := roundsTo_self hu cu
          rwa [← add_zero (toRat _)] at this
      | finite t n k pos' =>
          rw [← decreaseExponent_apply s m pos (min_le_left e k),
            ← decreaseExponent_apply t n pos' (min_le_right e k), ← add_mul]
          exact_mod_cast normalize_spec _ _ _

theorem canonical_neg (h : Canonical spec u) : Canonical spec u.neg := by
  cases u with
  | finite => exact h
  | infinity | zero | notANumber => trivial

theorem apply_neg (s : Sign) (n : ℤ) : (-s).apply n = -s.apply n := by
  cases s with
  | negative => exact (neg_neg n).symm
  | positive => rfl

theorem sub_eq_add (u v : UnpackedFloat) :
    UnpackedFloat.sub spec u v = UnpackedFloat.add spec u v.neg := by
  cases u with
  | notANumber | infinity | zero => cases v <;> rfl
  | finite s m e =>
      cases v with
      | notANumber | infinity | zero => rfl
      | finite t n k =>
          simp only [UnpackedFloat.sub, UnpackedFloat.add, UnpackedFloat.neg, apply_neg,
            sub_eq_add_neg]

theorem sub_spec (hu : u.isFinite = true) (hv : v.isFinite = true) (cu : Canonical spec u)
    (cv : Canonical spec v) : RoundsTo spec (UnpackedFloat.sub spec u v) (toRat u - toRat v) := by
  have finite : v.neg.isFinite = true := by
    cases v with
    | finite | zero => rfl
    | notANumber | infinity => cases hv
  rw [sub_eq_add, sub_eq_add_neg, ← toRat_neg]
  exact add_spec hu finite cu (canonical_neg cv)

theorem minExponent_nonpos (spec : Format) : spec.minExponent ≤ 0 := by
  have := spec.hm
  have : (1 : ℤ) ≤ 2 ^ (spec.exponentBits - 1) := one_le_pow₀ one_le_two
  simp only [Format.minExponent, Format.mantissaBits]
  omega

theorem mul_spec (hu : u.isFinite = true) (hv : v.isFinite = true) (cu : Canonical spec u)
    (cv : Canonical spec v) : RoundsTo spec (UnpackedFloat.mul spec u v) (toRat u * toRat v) := by
  cases u with
  | notANumber | infinity => cases hu
  | zero s =>
      cases v with
      | notANumber | infinity => cases hv
      | zero t | finite t =>
          show RoundsTo spec (.zero (s * t)) (0 * _)
          rw [zero_mul]
          exact roundsTo_zero _
  | finite s m e pos =>
      cases v with
      | notANumber | infinity => cases hv
      | zero t =>
          show RoundsTo spec (.zero (s * t)) (_ * 0)
          rw [mul_zero]
          exact roundsTo_zero _
      | finite t n k pos' =>
          obtain ⟨-, -, leadU⟩ := cu
          obtain ⟨-, -, leadV⟩ := cv
          have enough : e + k ≤ spec.minExponent ∨ 2 ^ (spec.mantissaBits - 1) ≤ m * n := by
            rcases leadU with many | low
            · exact .inr (many.trans (Nat.le_mul_of_pos_right m pos'))
            · rcases leadV with many | low'
              · exact .inr (many.trans (Nat.le_mul_of_pos_left n pos))
              · left
                have := minExponent_nonpos spec
                omega
          have rounded := roundWithAccuracy_spec (s * t) (represents_exact (m * n)) enough
          have product : (m * n : ℕ) * (2 : ℚ) ^ (e + k) = m * 2 ^ e * (n * 2 ^ k) := by
            rw [zpow_add₀ two_ne_zero]
            push_cast
            ring
          rwa [product, signed_mul] at rounded

/-- A quotient has digits enough to be cut off. -/
theorem divCore_enough (spec : Format) {m n : ℕ} (e k : ℤ) (pos : 0 < m) (pos' : 0 < n) :
    let t := min (e - k) (spec.targetExponent (totalExponent m e - totalExponent n k))
    t ≤ spec.minExponent ∨ 2 ^ (spec.mantissaBits - 1) ≤ m * 2 ^ (e - k - t).toNat / n := by
  intro t
  rcases le_or_gt t spec.minExponent with low | high
  · exact .inl low
  · right
    have lead := Nat.log2_self_le pos.ne'
    have bound := Nat.lt_log2_self (n := n)
    rw [Nat.le_div_iff_mul_le pos']
    have target : t ≤ m.log2 + 1 + e - (n.log2 + 1 + k) - spec.mantissaBits := by
      simp only [t, Format.targetExponent, totalExponent] at high ⊢
      omega
    calc 2 ^ (spec.mantissaBits - 1) * n ≤ 2 ^ (spec.mantissaBits - 1) * 2 ^ (n.log2 + 1) :=
          Nat.mul_le_mul_left _ bound.le
      _ = 2 ^ (spec.mantissaBits - 1 + (n.log2 + 1)) := (Nat.pow_add _ _ _).symm
      _ ≤ 2 ^ (m.log2 + (e - k - t).toNat) := by
          refine Nat.pow_le_pow_right two_pos ?_
          have : 0 < spec.mantissaBits := by simp only [Format.mantissaBits]; omega
          omega
      _ = 2 ^ m.log2 * 2 ^ (e - k - t).toNat := Nat.pow_add _ _ _
      _ ≤ m * 2 ^ (e - k - t).toNat := Nat.mul_le_mul_right _ lead

theorem div_spec (hu : u.isFinite = true) (hv : v.isFinite = true) (nonzero : toRat v ≠ 0) :
    RoundsTo spec (UnpackedFloat.div spec u v) (toRat u / toRat v) := by
  cases v with
  | notANumber | infinity => cases hv
  | zero => exact absurd rfl nonzero
  | finite t n k pos' =>
      cases u with
      | notANumber | infinity => cases hu
      | zero s =>
          show RoundsTo spec (.zero (s / t)) (0 / _)
          rw [zero_div]
          exact roundsTo_zero _
      | finite s m e pos =>
          have enough := divCore_enough spec e k pos pos'
          set target := min (e - k) (spec.targetExponent (totalExponent m e - totalExponent n k))
          have rounded := roundWithAccuracy_spec (s / t)
            (represents_fraction (m * 2 ^ (e - k - target).toNat) pos') enough
          have quotient : ((m * 2 ^ (e - k - target).toNat : ℕ) : ℚ) / n * 2 ^ target =
              m * 2 ^ e / (n * 2 ^ k) := by
            have : (0 : ℚ) < n := by exact_mod_cast pos'
            have shift : (2 : ℚ) ^ (e - k - target).toNat * 2 ^ target = 2 ^ e / 2 ^ k := by
              rw [← zpow_natCast, ← zpow_add₀ two_ne_zero, ← zpow_sub₀ two_ne_zero]
              congr 1
              omega
            push_cast
            rw [div_mul_eq_mul_div, mul_assoc, shift]
            field_simp
          rw [quotient, signed_div] at rounded
          have eq : UnpackedFloat.div spec (.finite s m e pos) (.finite t n k pos') =
              roundWithAccuracy spec (s / t) (m * 2 ^ (e - k - target).toNat / n) target
                (accuracyOfFraction (m * 2 ^ (e - k - target).toNat % n) n) := by
            simp only [UnpackedFloat.div, divCore, Nat.shiftLeft_eq]
            rfl
          rw [eq]
          exact rounded

end Operations

end Nonlinear.FloatingPoint
