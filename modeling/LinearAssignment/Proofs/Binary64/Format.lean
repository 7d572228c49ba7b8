import Mathlib
import LinearAssignment.Board

set_option autoImplicit false

namespace LinearAssignment.Binary64

open Float.Model Float.Model.UnpackedFloat

-- The one way to write a finite number with a mantissa of 53 bits, which numbers near zero do not
-- fill.
def Canonical : UnpackedFloat → Prop
  | .finite _ m e _ => m < 2 ^ 53 ∧ -1074 ≤ e ∧ e ≤ 971 ∧ (2 ^ 52 ≤ m ∨ e = -1074)
  | _ => True

theorem implicit_bit (m : BitVec 52) : (1#1 ++ m).toNat = 2 ^ 52 + m.toNat := by
  have bits := Nat.two_pow_add_eq_or_of_lt m.isLt 1
  rw [Nat.mul_one] at bits
  rw [BitVec.toNat_append, bits]
  rfl

theorem unpack_canonical (bits : BitVec Format.binary64.numBits) :
    Canonical (UnpackedFloat.unpack Format.binary64 bits) := by
  have mantissaSmall : (unpackMantissa bits).toNat < 2 ^ 52 := (unpackMantissa bits).isLt
  have exponentSmall : (unpackExponent bits).toNat < 2 ^ 11 := (unpackExponent bits).isLt
  have bias : Format.binary64.exponentBias = 1023 := rfl
  simp only [UnpackedFloat.unpack, bias]
  split
  · split <;> trivial
  · rename_i notTop
    have notTopNat : (unpackExponent bits).toNat ≠ 2047 := fun same =>
      notTop (BitVec.eq_of_toNat_eq same)
    split
    · rename_i isZero
      have isZeroNat : (unpackExponent bits).toNat = 0 := by rw [isZero]; rfl
      split
      · trivial
      · rw [Canonical, isZeroNat]
        exact ⟨by omega, by norm_num, by norm_num, Or.inr (by norm_num)⟩
    · rename_i notZero
      have notZeroNat : (unpackExponent bits).toNat ≠ 0 := fun same =>
        notZero (BitVec.eq_of_toNat_eq same)
      rw [Canonical, implicit_bit]
      exact ⟨by omega, by simp; omega, by simp; omega, Or.inl (by omega)⟩

theorem unpack_sign (spec : Format) (s : Sign) (e : BitVec spec.exponentBits)
    (m : BitVec spec.mantissaBitsWithoutImplicit) :
    Sign.ofBitVec (unpackSign (packComponents spec s e m)) = s := by
  have top : (unpackSign (packComponents spec s e m)).getLsbD 0 = s.toBitVec.getLsbD 0 := by
    simp [unpackSign, packComponents, BitVec.getLsbD_append, BitVec.getElem_append]
  have same : unpackSign (packComponents spec s e m) = s.toBitVec :=
    BitVec.eq_of_getLsbD_eq fun i inside => by
      obtain rfl : i = 0 := by omega
      exact top
  rw [same]
  cases s <;> rfl

theorem unpack_infinity (s : Sign) :
    UnpackedFloat.unpack Format.binary64 (packedInfinity Format.binary64 s) = .infinity s := by
  cases s <;> rfl

theorem normal_bits (m : Nat) (positive : 0 < m) (small : m < 2 ^ 53) :
    m.log2 + 1 = 53 ↔ 2 ^ 52 ≤ m := by
  have lower := Nat.le_log2 (k := 52) positive.ne'
  have upper := (Nat.log2_lt (k := 53) positive.ne').mpr small
  omega

theorem append_mantissa (m : Nat) (small : m < 2 ^ 53) (normal : 2 ^ 52 ≤ m) :
    (1#1 ++ BitVec.ofNat 52 m).toNat = m := by
  rw [implicit_bit, BitVec.toNat_ofNat]
  omega

theorem unpack_pack (f : UnpackedFloat) (canonical : Canonical f) :
    UnpackedFloat.unpack Format.binary64 (UnpackedFloat.pack Format.binary64 f) = f := by
  cases f with
  | notANumber => rfl
  | infinity s => exact unpack_infinity s
  | zero s => cases s <;> rfl
  | finite s m e positive =>
      obtain ⟨small, low, high, normal⟩ := canonical
      have bits := normal_bits m positive small
      have biased : e + (Format.binary64.exponentBias : Int) + (52 : Nat) = e + 1075 := by
        have bias : Format.binary64.exponentBias = 1023 := rfl
        omega
      have wordBits : Format.binary64.mantissaBits = 53 := rfl
      simp only [UnpackedFloat.pack, biased, wordBits]
      rw [if_neg (by omega)]
      by_cases large : 2 ^ 52 ≤ m
      · rw [if_pos (bits.mpr large)]
        have exponent : (BitVec.ofNat 11 (e + 1075).toNat).toNat = (e + 1075).toNat := by
          rw [BitVec.toNat_ofNat]
          omega
        have notTop : BitVec.ofNat 11 (e + 1075).toNat ≠ -1#11 := by
          intro same
          rw [same] at exponent
          change 2047 = _ at exponent
          omega
        have notZero : BitVec.ofNat 11 (e + 1075).toNat ≠ 0#11 := by
          intro same
          rw [same] at exponent
          change 0 = _ at exponent
          omega
        simp only [UnpackedFloat.unpack, unpackMantissa_packComponents,
          unpackExponent_packComponents, unpack_sign, if_neg notTop, if_neg notZero, exponent,
          append_mantissa m small large]
        congr 1
        have bias : Format.binary64.exponentBias = 1023 := rfl
        omega
      · rw [if_neg (fun full => large (bits.mp full))]
        have mantissa : (BitVec.ofNat 52 m).toNat = m := by
          rw [BitVec.toNat_ofNat]
          omega
        have nonzero : BitVec.ofNat 52 m ≠ 0#52 := by
          intro same
          rw [same] at mantissa
          change 0 = m at mantissa
          omega
        have lowest : e = -1074 := normal.resolve_left large
        subst lowest
        have notTop : (0#11) ≠ -1#11 := by decide
        simp only [UnpackedFloat.unpack, unpackMantissa_packComponents,
          unpackExponent_packComponents, unpack_sign, if_neg notTop, if_true,
          dif_neg nonzero, mantissa]
        rfl

theorem unpack_overflow (s : Sign) (m : Nat) (e : Int) (positive : 0 < m) (high : 971 < e) :
    UnpackedFloat.unpack Format.binary64
      (UnpackedFloat.pack Format.binary64 (.finite s m e positive)) = .infinity s := by
  have biased : e + (Format.binary64.exponentBias : Int) + (52 : Nat) = e + 1075 := by
    have bias : Format.binary64.exponentBias = 1023 := rfl
    omega
  simp only [UnpackedFloat.pack, biased]
  rw [if_pos (by omega)]
  exact unpack_infinity s

end LinearAssignment.Binary64
