import Mathlib
import Nonlinear.FloatingPoint

/-! # Bit patterns

A value with a bit pattern in a format survives packing, and every bit pattern stands for such
a value.  So an operation that ends in packing a value of the format can be read off the value.
-/

namespace Nonlinear.FloatingPoint

open Float.Model (Format UnpackedFloat)
open Float.Model.UnpackedFloat

variable {spec : Format}

/-- The exponent field of a number with a leading one. -/
def biased (spec : Format) (e : Int) : Int :=
  e + spec.exponentBias + spec.mantissaBitsWithoutImplicit

/-- A value that a format has a bit pattern for: mantissa and exponent are in range, and only
the smallest exponent goes without a leading one. -/
def Fits (spec : Format) : UnpackedFloat → Prop
  | .finite _ m e _ =>
    m < 2 ^ (spec.mantissaBitsWithoutImplicit + 1) ∧ 1 ≤ biased spec e ∧
      biased spec e + 1 < (2 ^ spec.exponentBits : Nat) ∧
      (2 ^ spec.mantissaBitsWithoutImplicit ≤ m ∨ biased spec e = 1)
  | _ => True

@[simp]
theorem unpackSign_packComponents (s : Sign) (e : BitVec spec.exponentBits)
    (m : BitVec spec.mantissaBitsWithoutImplicit) :
    Sign.ofBitVec (unpackSign (packComponents spec s e m)) = s := by
  have h : unpackSign (packComponents spec s e m) = s.toBitVec := by
    ext i hi
    have : i = 0 := by omega
    subst this
    simp [unpackSign, packComponents, BitVec.getLsbD_append, BitVec.getElem_append]
  rw [h]
  cases s <;> rfl

theorem toNat_one_append {w : Nat} (m : BitVec w) : (1#1 ++ m).toNat = 2 ^ w + m.toNat := by
  rw [BitVec.toNat_append, ← Nat.shiftLeft_add_eq_or_of_lt m.isLt]
  simp [Nat.shiftLeft_eq]

theorem two_le_exponents (spec : Format) : 2 ≤ 2 ^ spec.exponentBits :=
  Nat.le_self_pow (by have := spec.he; omega) 2

theorem zero_ne_allOnes (spec : Format) : BitVec.ofNat spec.exponentBits 0 ≠ -1#_ := by
  intro h
  have := congrArg BitVec.toNat h
  have := two_le_exponents spec
  simp only [BitVec.neg_one_eq_allOnes, BitVec.toNat_allOnes, BitVec.toNat_zero] at *
  omega

theorem unpack_normal (s : Sign) {e : BitVec spec.exponentBits}
    (m : BitVec spec.mantissaBitsWithoutImplicit) (zero : e ≠ 0#_) (ones : e ≠ -1#_) :
    unpack spec (packComponents spec s e m) =
      .finite s (1#1 ++ m).toNat
        ((e.toNat : Int) - (spec.exponentBias + spec.mantissaBitsWithoutImplicit)) (by simp) := by
  simp only [unpack, unpackExponent_packComponents, unpackMantissa_packComponents,
    unpackSign_packComponents, zero, ones, if_false]

theorem unpack_subnormal (s : Sign) {m : BitVec spec.mantissaBitsWithoutImplicit}
    (h : m ≠ 0#_) :
    unpack spec (packComponents spec s 0#_ m) =
      .finite s m.toNat (1 - (spec.exponentBias + spec.mantissaBitsWithoutImplicit))
        (by simpa [BitVec.toNat_pos, BitVec.pos_iff_ne_zero]) := by
  simp only [unpack, unpackExponent_packComponents, unpackMantissa_packComponents,
    unpackSign_packComponents, zero_ne_allOnes, h, if_false, if_true, dite_false]
  congr 1
  simp
  omega

theorem fits_unpack (wide : 1 < spec.exponentBits) (b : BitVec spec.numBits) :
    Fits spec (unpack spec b) := by
  have hm := (unpackMantissa b).isLt
  have he := (unpackExponent b).isLt
  have four : 2 ^ 2 ≤ 2 ^ spec.exponentBits := Nat.pow_le_pow_right (by decide) wide
  rw [unpack]
  split
  · split <;> trivial
  · rename_i ones
    have ones' : (unpackExponent b).toNat ≠ 2 ^ spec.exponentBits - 1 := fun h =>
      ones (BitVec.toNat_inj.mp (by simpa [BitVec.neg_one_eq_allOnes] using h))
    split
    · rename_i zero
      split
      · trivial
      · simp only [Fits, biased, zero, BitVec.toNat_zero, Nat.pow_succ]
        omega
    · rename_i zero
      have zero' : (unpackExponent b).toNat ≠ 0 := fun h =>
        zero (BitVec.toNat_inj.mp (by simpa using h))
      simp only [Fits, biased, toNat_one_append, Nat.pow_succ]
      omega

theorem log2_of_leading {k m : Nat} (lo : 2 ^ k ≤ m) (hi : m < 2 ^ (k + 1)) : m.log2 = k :=
  (Nat.log2_eq_iff (by have := Nat.two_pow_pos k; omega)).mpr ⟨lo, hi⟩

theorem pack_finite (s : Sign) (m : Nat) (e : Int) (pos : 0 < m) :
    UnpackedFloat.pack spec (.finite s m e pos) =
      if 2 ^ spec.exponentBits ≤ (biased spec e).toNat + 1 then packedInfinity spec s
      else if m.log2 + 1 = spec.mantissaBits then
        packComponents spec s (BitVec.ofNat _ (biased spec e).toNat) (BitVec.ofNat _ m)
      else packComponents spec s 0#_ (BitVec.ofNat _ m) := rfl

/-- Packing loses nothing of a value that has a bit pattern. -/
theorem unpack_pack {u : UnpackedFloat} (h : Fits spec u) :
    unpack spec (UnpackedFloat.pack spec u) = u := by
  cases u with
  | notANumber =>
      have nonzero : BitVec.ofNat spec.mantissaBitsWithoutImplicit 1 <<<
          (spec.mantissaBitsWithoutImplicit - 1) ≠ 0#_ := by
        have := spec.hm
        intro h
        have bit := congrArg (fun v => v.getLsbD (spec.mantissaBitsWithoutImplicit - 1)) h
        simp at bit
        omega
      simp [UnpackedFloat.pack, packedNaN, unpack, nonzero]
  | infinity s => simp [UnpackedFloat.pack, packedInfinity, unpack]
  | zero s => simp [UnpackedFloat.pack, packedZero, unpack, spec.he.ne']
  | finite s m e pos =>
      obtain ⟨hm, lo, hi, lead⟩ := h
      have bounded : ¬ 2 ^ spec.exponentBits ≤ (biased spec e).toNat + 1 := by omega
      have exponent : (BitVec.ofNat spec.exponentBits (biased spec e).toNat).toNat =
          (biased spec e).toNat := by
        rw [BitVec.toNat_ofNat, Nat.mod_eq_of_lt (by omega)]
      rw [pack_finite, if_neg bounded]
      by_cases normal : 2 ^ spec.mantissaBitsWithoutImplicit ≤ m
      · have zero : BitVec.ofNat spec.exponentBits (biased spec e).toNat ≠ 0#_ := by
          intro h
          have := congrArg BitVec.toNat h
          rw [exponent, BitVec.toNat_zero] at this
          omega
        have ones : BitVec.ofNat spec.exponentBits (biased spec e).toNat ≠ -1#_ := by
          intro h
          have := congrArg BitVec.toNat h
          rw [exponent, BitVec.neg_one_eq_allOnes, BitVec.toNat_allOnes] at this
          omega
        rw [if_pos (by rw [log2_of_leading normal hm]; exact Nat.add_comm _ _),
          unpack_normal s _ zero ones]
        congr 1
        · rw [toNat_one_append, BitVec.toNat_ofNat, Nat.mod_eq_sub_mod normal,
            Nat.mod_eq_of_lt (by rw [Nat.pow_succ] at hm; omega)]
          omega
        · rw [exponent]
          simp only [biased]
          simp only [biased] at lo
          omega
      · have small : m < 2 ^ spec.mantissaBitsWithoutImplicit := by omega
        have value : (BitVec.ofNat spec.mantissaBitsWithoutImplicit m).toNat = m := by
          rw [BitVec.toNat_ofNat, Nat.mod_eq_of_lt small]
        have nonzero : BitVec.ofNat spec.mantissaBitsWithoutImplicit m ≠ 0#_ := by
          intro h
          have := congrArg BitVec.toNat h
          rw [value, BitVec.toNat_zero] at this
          omega
        have short : m.log2 + 1 ≠ spec.mantissaBits := by
          have := (Nat.log2_lt pos.ne').mpr small
          simp only [Format.mantissaBits]
          omega
        rw [if_neg short, unpack_subnormal s nonzero]
        congr 1
        have := lead.resolve_left normal
        simp only [biased] at this
        omega

theorem fits_abs {u : UnpackedFloat} (h : Fits spec u) : Fits spec u.abs := by
  cases u with
  | finite => exact h
  | notANumber | infinity | zero => trivial

end Nonlinear.FloatingPoint
