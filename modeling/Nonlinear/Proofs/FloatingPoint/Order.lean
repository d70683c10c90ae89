import Mathlib
import Nonlinear.Proofs.FloatingPoint.Packing
import Nonlinear.Proofs.Scalar.Order

/-! # The order of binary numbers

Comparison reads off a rank: the kind of a number first, then its exponent, then its mantissa.
Ranks are linearly ordered, so the comparisons of doubles and of singles obey the laws of
`LawfulScalar`.
-/

namespace Nonlinear.FloatingPoint

open Float.Model (Format UnpackedFloat)
open Float.Model.UnpackedFloat

/-- Where a number stands among the numbers of its format.  The kind decides first, then the
exponent, then the mantissa. -/
def rank : UnpackedFloat → ℤ ×ₗ ℤ ×ₗ ℤ
  | .infinity .negative => toLex (-2, toLex (0, 0))
  | .finite .negative m e _ => toLex (-1, toLex (-e, -(m : ℤ)))
  | .zero _ | .notANumber => toLex (0, toLex (0, 0))
  | .finite .positive m e _ => toLex (1, toLex (e, (m : ℤ)))
  | .infinity .positive => toLex (2, toLex (0, 0))

theorem compare_lex (a b c a' b' c' : ℤ) :
    compare (toLex (a, toLex (b, c)) : ℤ ×ₗ ℤ ×ₗ ℤ) (toLex (a', toLex (b', c'))) =
      (compare a a').then ((compare b b').then (compare c c')) := rfl

theorem compare_neg (m n : ℤ) : compare (-m) (-n) = (compare m n).swap := by
  rcases lt_trichotomy m n with h | h | h
  · rw [compare_lt_iff_lt.mpr h, compare_gt_iff_gt.mpr (Int.neg_lt_neg h)]; rfl
  · rw [h]; simp
  · rw [compare_gt_iff_gt.mpr h, compare_lt_iff_lt.mpr (Int.neg_lt_neg h)]; rfl

theorem compare_natCast (m n : ℕ) : compare (m : ℤ) n = compare m n := by
  rcases lt_trichotomy m n with h | h | h
  · rw [compare_lt_iff_lt.mpr h, compare_lt_iff_lt.mpr (by exact_mod_cast h)]
  · rw [h]; simp
  · rw [compare_gt_iff_gt.mpr h, compare_gt_iff_gt.mpr (by exact_mod_cast h)]

theorem compare_eq_rank {u v : UnpackedFloat} (hu : u.isNaN = false) (hv : v.isNaN = false) :
    u.compare v = some (compare (rank u) (rank v)) := by
  cases u with
  | notANumber => cases hu
  | infinity s =>
      cases v with
      | notANumber => cases hv
      | infinity t | zero t | finite t => cases s <;> cases t <;> rfl
  | zero s =>
      cases v with
      | notANumber => cases hv
      | infinity t | zero t | finite t => cases s <;> cases t <;> rfl
  | finite s m e =>
      cases v with
      | notANumber => cases hv
      | infinity t | zero t => cases s <;> cases t <;> rfl
      | finite t n k =>
          cases s <;> cases t
          · simp only [UnpackedFloat.compare, rank, compare_lex, compare_neg, compare_natCast,
              Ordering.swap_then]
            rfl
          · rfl
          · rfl
          · simp only [UnpackedFloat.compare, rank, compare_lex, compare_natCast]
            rfl

theorem compare_eq_none {u v : UnpackedFloat} (h : u.isNaN = true ∨ v.isNaN = true) :
    u.compare v = none := by
  rcases h with h | h
  · cases u with
    | notANumber => rfl
    | infinity | zero | finite => cases h
  · cases v with
    | notANumber => cases u <;> rfl
    | infinity | zero | finite => cases h

/-- Numbers compare as their ranks do; a NaN compares with nothing. -/
theorem compare_eq (u v : UnpackedFloat) :
    u.compare v =
      if u.isNaN = true ∨ v.isNaN = true then none else some (compare (rank u) (rank v)) := by
  split
  · exact compare_eq_none ‹_›
  · rename_i h
    simp only [not_or, Bool.not_eq_true] at h
    exact compare_eq_rank h.1 h.2

theorem le_iff_rank {u v : UnpackedFloat} :
    u.le v = true ↔ u.isNaN = false ∧ v.isNaN = false ∧ rank u ≤ rank v := by
  rw [UnpackedFloat.le, compare_eq]
  split
  · simp; grind
  · simp [Ordering.isLE_iff_ne_gt, compare_le_iff_le]; grind

theorem lt_iff_rank {u v : UnpackedFloat} :
    u.lt v = true ↔ u.isNaN = false ∧ v.isNaN = false ∧ rank u < rank v := by
  rw [UnpackedFloat.lt, compare_eq]
  split
  · simp; grind
  · simp [compare_lt_iff_lt]; grind

theorem beq_iff_rank {u v : UnpackedFloat} :
    u.beq v = true ↔ u.isNaN = false ∧ v.isNaN = false ∧ rank u = rank v := by
  rw [UnpackedFloat.beq, compare_eq]
  split
  · simp; grind
  · simp [compare_eq_iff_eq]; grind

variable {spec : Format}

theorem sign_eq_negative (b : BitVec 1) : (Sign.ofBitVec b == .negative) = (b.toNat == 1) := by
  revert b
  decide

theorem toNat_unpackSign {spec : Format} (b : BitVec spec.numBits) :
    (unpackSign b).toNat = b.toNat / 2 ^ (spec.numBits - 1) := by
  have shape : spec.mantissaBitsWithoutImplicit + spec.exponentBits = spec.numBits - 1 := by
    simp only [Format.numBits]; omega
  have succ : (spec.numBits - 1).succ = spec.numBits := by
    simp only [Format.numBits]; omega
  have lt : b.toNat < 2 * 2 ^ (spec.numBits - 1) := by
    rw [← Nat.pow_succ', succ]
    exact b.isLt
  rw [unpackSign, BitVec.toNat_cast, shape, BitVec.extractLsb_toNat, Nat.shiftRight_eq_div_pow]
  simp
  have := Nat.div_lt_of_lt_mul (Nat.mul_comm 2 _ ▸ lt)
  omega

theorem sign64 (w : UInt64) : (w >>> 63 == 1) =
    (Sign.ofBitVec (@unpackSign .binary64 w.toBitVec) == .negative) := by
  rw [sign_eq_negative, toNat_unpackSign, Bool.eq_iff_iff, beq_iff_eq, beq_iff_eq,
    ← UInt64.toNat_inj]
  simp [Nat.shiftRight_eq_div_pow]

theorem sign32 (w : UInt32) : (w >>> 31 == 1) =
    (Sign.ofBitVec (@unpackSign .binary32 w.toBitVec) == .negative) := by
  rw [sign_eq_negative, toNat_unpackSign, Bool.eq_iff_iff, beq_iff_eq, beq_iff_eq,
    ← UInt32.toNat_inj]
  simp [Nat.shiftRight_eq_div_pow]

theorem rank_positive_sign {b : BitVec spec.numBits}
    (h : Sign.ofBitVec (unpackSign b) = .positive) :
    rank (.zero .positive) ≤ rank (unpack spec b) := by
  simp only [unpack, h]
  split
  · split <;> decide
  · split
    · split <;> simp [rank, Prod.Lex.toLex_le_toLex]
    · simp [rank, Prod.Lex.toLex_le_toLex]

theorem rank_negative_sign {b : BitVec spec.numBits}
    (h : Sign.ofBitVec (unpackSign b) = .negative) :
    rank (unpack spec b) ≤ rank (.zero .positive) := by
  simp only [unpack, h]
  split
  · split <;> decide
  · split
    · split <;> simp [rank, Prod.Lex.toLex_le_toLex]
    · simp [rank, Prod.Lex.toLex_le_toLex]

/-- Packing may overflow to infinity but does not change a sign. -/
theorem rank_unpack_pack {u : UnpackedFloat} (h : rank (.zero .positive) ≤ rank u) :
    rank (.zero .positive) ≤ rank (unpack spec (UnpackedFloat.pack spec u)) := by
  cases u with
  | notANumber | infinity | zero => rwa [unpack_pack (by trivial)]
  | finite s m e =>
      cases s with
      | negative => simp [rank, Prod.Lex.toLex_le_toLex] at h
      | positive =>
          apply rank_positive_sign
          rw [pack_finite]
          split
          · simp [packedInfinity]
          · split <;> simp

theorem rank_sqrt (u : UnpackedFloat) :
    rank (.zero .positive) ≤ rank (UnpackedFloat.sqrt spec u) := by
  cases u with
  | notANumber => exact le_refl _
  | zero s => exact le_refl _
  | infinity s =>
      cases s with
      | negative => exact le_refl _
      | positive => simp [rank, UnpackedFloat.sqrt, Prod.Lex.toLex_le_toLex]
  | finite s m e =>
      cases s with
      | negative => exact le_refl _
      | positive =>
          simp only [UnpackedFloat.sqrt, roundWithAccuracy]
          split
          · exact le_refl _
          · simp [rank, Prod.Lex.toLex_le_toLex]

theorem rank_abs_nonneg (u : UnpackedFloat) : rank (.zero .positive) ≤ rank u.abs := by
  cases u with
  | notANumber | zero => exact le_refl _
  | infinity => simp [rank, UnpackedFloat.abs, Prod.Lex.toLex_le_toLex]
  | finite => simp [rank, UnpackedFloat.abs, Prod.Lex.toLex_le_toLex]

theorem rank_abs {u : UnpackedFloat} (h : rank (.zero .positive) ≤ rank u) :
    rank u.abs = rank u := by
  cases u with
  | notANumber | zero => rfl
  | infinity s =>
      cases s with
      | positive => rfl
      | negative => exact absurd h (by decide)
  | finite s m e =>
      cases s with
      | positive => rfl
      | negative => simp [rank, Prod.Lex.toLex_le_toLex] at h

theorem finite_or_infinity {u : UnpackedFloat} (h : u.isNaN = false) :
    u.isFinite = true ∨ ∃ s, u = .infinity s := by
  cases u with
  | notANumber => cases h
  | zero | finite => exact .inl rfl
  | infinity s => exact .inr ⟨s, rfl⟩

theorem rank_between {u : UnpackedFloat} (hu : u.isFinite = true) :
    rank (.infinity .negative) < rank u ∧ rank u < rank (.infinity .positive) := by
  cases u with
  | notANumber | infinity => cases hu
  | zero => simp [rank, Prod.Lex.toLex_lt_toLex]
  | finite s => cases s <;> simp [rank, Prod.Lex.toLex_lt_toLex]

theorem rank_infinite {u v : UnpackedFloat} (hn : v.isNaN = false) (hf : v.isFinite = false)
    (hv : rank (.zero .positive) ≤ rank v) (hu : u.isFinite = true) : rank u < rank v := by
  rcases finite_or_infinity hn with finite | ⟨s, rfl⟩
  · exact absurd finite (by rw [hf]; decide)
  · cases s with
    | negative => exact absurd hv (by decide)
    | positive => exact (rank_between hu).2

end Nonlinear.FloatingPoint

namespace Nonlinear

open Float.Model (Format UnpackedFloat)
open Float.Model.UnpackedFloat

/-- Numbers that are the bit patterns of a binary format.  They compare by the values they stand
for, and an operation packs the rounded value of its result. -/
class BinaryScalar (α : Type) [Scalar α] where
  format : Format
  wide : 1 < format.exponentBits
  bits : α → BitVec format.numBits
  lt_iff (x y : α) : x < y ↔ (unpack format (bits x)).lt (unpack format (bits y)) = true
  le_iff (x y : α) : x ≤ y ↔ (unpack format (bits x)).le (unpack format (bits y)) = true
  beq_eq (x y : α) : (x == y) = (unpack format (bits x)).beq (unpack format (bits y))
  isNaN_eq (x : α) : Scalar.isNaN x = (unpack format (bits x)).isNaN
  isFinite_eq (x : α) : Scalar.isFinite x = (unpack format (bits x)).isFinite
  isNegative_eq (x : α) :
    Scalar.isNegative x = (Sign.ofBitVec (unpackSign (bits x)) == .negative)
  bits_zero : bits 0.0 = packedZero format .positive
  bits_magnitude (x : α) : bits (Scalar.magnitude x) = pack format (unpack format (bits x)).abs
  bits_sqrt (x : α) :
    bits (Scalar.sqrt x) = pack format (UnpackedFloat.sqrt format (unpack format (bits x)))
  bits_neg (x : α) : bits (-x) = pack format (unpack format (bits x)).neg
  bits_add (x y : α) :
    bits (x + y) = pack format (.add format (unpack format (bits x)) (unpack format (bits y)))
  bits_sub (x y : α) :
    bits (x - y) = pack format (.sub format (unpack format (bits x)) (unpack format (bits y)))
  bits_mul (x y : α) :
    bits (x * y) = pack format (.mul format (unpack format (bits x)) (unpack format (bits y)))
  bits_div (x y : α) :
    bits (x / y) = pack format (.div format (unpack format (bits x)) (unpack format (bits y)))

instance : BinaryScalar Float where
  format := .binary64
  wide := by decide
  bits x := x.toBits.toBitVec
  lt_iff x y := decide_eq_true_iff (p := x.toModel < y.toModel)
  le_iff x y := decide_eq_true_iff (p := x.toModel ≤ y.toModel)
  beq_eq x y := rfl
  isNaN_eq x := rfl
  isFinite_eq x := rfl
  isNegative_eq x := FloatingPoint.sign64 x.toBits
  bits_zero := by decide +kernel
  bits_magnitude x := rfl
  bits_sqrt x := rfl
  bits_neg x := rfl
  bits_add x y := rfl
  bits_sub x y := rfl
  bits_mul x y := rfl
  bits_div x y := rfl

instance : BinaryScalar Float32 where
  format := .binary32
  wide := by decide
  bits x := x.toBits.toBitVec
  lt_iff x y := decide_eq_true_iff (p := x.toModel < y.toModel)
  le_iff x y := decide_eq_true_iff (p := x.toModel ≤ y.toModel)
  beq_eq x y := rfl
  isNaN_eq x := rfl
  isFinite_eq x := rfl
  isNegative_eq x := FloatingPoint.sign32 x.toBits
  bits_zero := by decide +kernel
  bits_magnitude x := rfl
  bits_sqrt x := rfl
  bits_neg x := rfl
  bits_add x y := rfl
  bits_sub x y := rfl
  bits_mul x y := rfl
  bits_div x y := rfl

namespace BinaryScalar

open FloatingPoint

variable {α : Type} [Scalar α] [BinaryScalar α] {x y : α}

/-- The value that a number stands for. -/
def value (x : α) : UnpackedFloat := unpack (format α) (bits x)

theorem le_iff_value : x ≤ y ↔
    Scalar.isNaN x = false ∧ Scalar.isNaN y = false ∧ rank (value x) ≤ rank (value y) := by
  rw [le_iff, le_iff_rank, isNaN_eq, isNaN_eq]
  rfl

theorem lt_iff_value : x < y ↔
    Scalar.isNaN x = false ∧ Scalar.isNaN y = false ∧ rank (value x) < rank (value y) := by
  rw [lt_iff, lt_iff_rank, isNaN_eq, isNaN_eq]
  rfl

theorem value_zero : value (0.0 : α) = .zero .positive := by
  rw [value, bits_zero]
  exact unpack_pack (u := .zero .positive) trivial

theorem value_magnitude (x : α) : value (Scalar.magnitude x) = (value x).abs := by
  rw [value, bits_magnitude]
  exact unpack_pack (fits_abs (fits_unpack wide _))

theorem zero_le_iff :
    0.0 ≤ x ↔ Scalar.isNaN x = false ∧ rank (.zero .positive) ≤ rank (value x) := by
  have zero : Scalar.isNaN (0.0 : α) = false := by
    rw [isNaN_eq]
    exact congrArg UnpackedFloat.isNaN value_zero
  rw [le_iff_value, value_zero]
  simp [zero]

theorem isNaN_of_isFinite (h : Scalar.isFinite x = true) : Scalar.isNaN x = false := by
  rw [isFinite_eq] at h
  rw [isNaN_eq]
  cases hu : unpack (format α) (bits x) with
  | notANumber => rw [hu] at h; cases h
  | infinity | zero | finite => rfl

theorem isNaN_magnitude (x : α) : Scalar.isNaN (Scalar.magnitude x) = Scalar.isNaN x := by
  rw [isNaN_eq, isNaN_eq]
  show (value (Scalar.magnitude x)).isNaN = (value x).isNaN
  rw [value_magnitude]
  cases value x <;> rfl

/-- The laws of comparison for doubles, for singles, and for any other binary format. -/
instance : LawfulScalar α where
  le_refl h := le_iff_value.mpr ⟨h, h, le_refl _⟩
  le_trans h k := by
    obtain ⟨hx, -, hxy⟩ := le_iff_value.mp h
    obtain ⟨-, hz, hyz⟩ := le_iff_value.mp k
    exact le_iff_value.mpr ⟨hx, hz, le_trans hxy hyz⟩
  le_total {x y} hx hy := by
    rcases le_total (rank (value x)) (rank (value y)) with h | h
    · exact .inl (le_iff_value.mpr ⟨hx, hy, h⟩)
    · exact .inr (le_iff_value.mpr ⟨hy, hx, h⟩)
  lt_iff {x y} := by
    rw [lt_iff_value, le_iff_value, le_iff_value, lt_iff_le_not_ge]
    grind
  beq_iff {x y} := by
    have ranks := le_antisymm_iff (a := rank (value x)) (b := rank (value y))
    rw [beq_eq, beq_iff_rank, le_iff_value, le_iff_value, ← isNaN_eq, ← isNaN_eq]
    simp only [value] at ranks ⊢
    grind
  isNaN_of_le h := ⟨(le_iff_value.mp h).1, (le_iff_value.mp h).2.1⟩
  isNaN_of_isFinite := isNaN_of_isFinite
  isFinite_zero := by
    rw [isFinite_eq]
    exact congrArg UnpackedFloat.isFinite value_zero
  lt_of_infinite {x y} hn hf hy hx := by
    have nonneg := (zero_le_iff.mp hy).2
    have finite := isNaN_of_isFinite hx
    rw [isFinite_eq] at hf hx
    exact lt_iff_value.mpr ⟨finite, hn, rank_infinite (isNaN_eq y ▸ hn) hf nonneg hx⟩
  isNaN_magnitude := isNaN_magnitude
  isFinite_magnitude x := by
    rw [isFinite_eq, isFinite_eq]
    show (value (Scalar.magnitude x)).isFinite = (value x).isFinite
    rw [value_magnitude]
    cases value x <;> rfl
  magnitude_nonneg {x} h := by
    rw [zero_le_iff, isNaN_magnitude, value_magnitude]
    exact ⟨h, rank_abs_nonneg _⟩
  magnitude_beq {x} h := by
    obtain ⟨hn, hx⟩ := zero_le_iff.mp h
    have same := rank_abs hx
    rw [← value_magnitude] at same
    rw [beq_eq, beq_iff_rank, ← isNaN_eq, ← isNaN_eq, isNaN_magnitude]
    exact ⟨hn, hn, same⟩
  isNegative_of_neg {x} h := by
    obtain ⟨-, -, hr⟩ := lt_iff_value.mp h
    rw [value_zero] at hr
    rw [isNegative_eq]
    cases hs : Sign.ofBitVec (unpackSign (bits x)) with
    | negative => rfl
    | positive => exact absurd (rank_positive_sign hs) (not_le_of_gt hr)
  isNegative_of_pos {x} h := by
    obtain ⟨-, -, hr⟩ := lt_iff_value.mp h
    rw [value_zero] at hr
    rw [isNegative_eq]
    cases hs : Sign.ofBitVec (unpackSign (bits x)) with
    | positive => rfl
    | negative => exact absurd (rank_negative_sign hs) (not_le_of_gt hr)
  sqrt_nonneg {x} h := by
    rw [zero_le_iff, value, bits_sqrt]
    exact ⟨h, rank_unpack_pack (rank_sqrt _)⟩

end BinaryScalar

end Nonlinear
