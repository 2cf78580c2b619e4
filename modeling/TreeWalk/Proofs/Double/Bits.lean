import Mathlib
import TreeWalk.Double.Text

/-!
# The bits of doubles

A double is a sign, eleven bits of exponent and fifty-two of fraction, and its code is what stands
beside the sign. A double with a clear sign is the one of its code, and any other number is the
negative of that one.
-/

namespace TreeWalk.Double

open Float.Model (Format UnpackedFloat)
open Float.Model.UnpackedFloat

/-- The bits of a sign, an exponent and a fraction. -/
def word (sign : Sign) (exponent : BitVec 11) (fraction : BitVec 52) : BitVec 64 :=
  packComponents Format.binary64 sign exponent fraction

section Words

variable (sign : Sign) (exponent : BitVec 11) (fraction : BitVec 52)

/-- The bits as one number: the sign in front, then the exponent, then the fraction. -/
theorem toNat_word :
    (word sign exponent fraction).toNat =
      (sign.toBitVec.toNat <<< 11 + exponent.toNat) <<< 52 + fraction.toNat := by
  change (sign.toBitVec ++ exponent ++ fraction).toNat = _
  rw [BitVec.toNat_append, BitVec.toNat_append, ← Nat.shiftLeft_add_eq_or_of_lt exponent.isLt,
    ← Nat.shiftLeft_add_eq_or_of_lt fraction.isLt]

/-- The greatest exponent is that of infinity and of what is not a number. -/
theorem isFinite_unpack_word :
    (unpack Format.binary64 (word sign exponent fraction)).isFinite = true ↔ exponent ≠ -1#11 := by
  have exponents : @unpackExponent Format.binary64 (word sign exponent fraction) = exponent :=
    unpackExponent_packComponents
  simp only [unpack, exponents]
  split
  next top =>
    refine iff_of_false ?_ (absurd top)
    split <;> exact Bool.false_ne_true
  next top =>
    refine iff_of_true ?_ top
    split
    · split <;> rfl
    · rfl

/-- The sign of the bits is the sign of what is unpacked. -/
theorem unpack_neg_word :
    unpack Format.binary64 (word (-sign) exponent fraction) =
      (unpack Format.binary64 (word sign exponent fraction)).neg := by
  simp only [unpack, word, unpackExponent_packComponents, unpackMantissa_packComponents,
    unpackSign_packComponents, Sign.ofBitVec_toBitVec]
  split
  · split <;> rfl
  · split
    · split <;> rfl
    · rfl

end Words

/-- All sixty-four bits are those of a sign, an exponent and a fraction, and what stands beside the
sign is the last two. -/
theorem exists_word (bits : UInt64) : ∃ sign exponent fraction,
    bits.toBitVec = word sign exponent fraction ∧
      bits.toNat % 1 <<< 63 = exponent.toNat <<< 52 + fraction.toNat ∧
      (1 <<< 63 ≤ bits.toNat ↔ sign = .negative) := by
  obtain ⟨sign, exponent, fraction, same⟩ : ∃ sign exponent fraction,
      bits.toBitVec = word sign exponent fraction :=
    ⟨_, _, _, (@packComponents_unpackSign_unpackExponent_unpackMantissa
      Format.binary64 bits.toBitVec).symm⟩
  have whole : bits.toNat = _ := (congrArg BitVec.toNat same).trans (toNat_word _ _ _)
  have large := exponent.isLt
  have small := fraction.isLt
  have top : 1 <<< 63 = 9223372036854775808 := rfl
  rw [whole, top]
  refine ⟨sign, exponent, fraction, same, ?_, ?_⟩
  · omega
  · cases sign with
    | negative =>
        have bit : Sign.negative.toBitVec.toNat = 1 := rfl
        rw [bit]
        exact iff_of_true (by omega) rfl
    | positive =>
        have bit : Sign.positive.toBitVec.toNat = 0 := rfl
        rw [bit]
        exact iff_of_false (by omega) (by simp)

/-- A double made of the bits of a number has these bits. -/
theorem toBits_ofBits {bits : UInt64} (bound : bits.toNat % 1 <<< 63 ≤ infinityCode) :
    (Float.ofBits bits).toBits = bits := by
  obtain ⟨sign, exponent, fraction, same, beside, _⟩ := exists_word bits
  have limit : infinityCode = 2047 <<< 52 := rfl
  rw [beside, limit] at bound
  -- Only the bits of what is not a number can change when they are packed again.
  have ordered : ¬ @isNaNBits Format.binary64 bits.toBitVec := by
    rw [same, isNaNBits, word, unpackExponent_packComponents, unpackMantissa_packComponents,
      decide_eq_true_eq]
    rintro ⟨rfl, nonzero⟩
    apply nonzero
    apply BitVec.eq_of_toNat_eq
    change 2047 <<< 52 + fraction.toNat ≤ 2047 <<< 52 at bound
    change fraction.toNat = 0
    omega
  apply UInt64.toBitVec_inj.1
  change pack Format.binary64 (unpack Format.binary64 bits.toBitVec) = bits.toBitVec
  rw [pack_unpack, if_neg ordered]

/-- The code of infinity leaves the bit of the sign free. -/
theorem infinityCode_lt : infinityCode < 1 <<< 63 := by
  decide

section Codes

variable {magnitude : Nat} (bound : magnitude ≤ infinityCode)
include bound

/-- The number of a code has the code as its bits. -/
theorem toBits_ofCode : (ofCode magnitude).toBits.toNat = magnitude := by
  have below : magnitude < 1 <<< 63 := Nat.lt_of_le_of_lt bound infinityCode_lt
  have whole : (UInt64.ofNat magnitude).toNat = magnitude := by
    rw [UInt64.toNat_ofNat']
    exact Nat.mod_eq_of_lt (Nat.lt_trans below (by decide))
  rw [ofCode, toBits_ofBits, whole]
  rwa [whole, Nat.mod_eq_of_lt below]

/-- The number of a code has a clear sign. -/
theorem isNegative_ofCode : isNegative (ofCode magnitude) = false := by
  rw [isNegative, toBits_ofCode bound, decide_eq_false_iff_not, Nat.not_le]
  exact Nat.lt_of_le_of_lt bound infinityCode_lt

end Codes

variable {value : Float}

/-- A double is finite if its code comes before that of infinity. -/
theorem isFinite_iff : value.isFinite = true ↔ code value < infinityCode := by
  obtain ⟨sign, exponent, fraction, same, beside, _⟩ := exists_word value.toBits
  have large := exponent.isLt
  have small := fraction.isLt
  have limit : infinityCode = 2047 <<< 52 := rfl
  change (unpack Format.binary64 value.toBits.toBitVec).isFinite = true ↔ _ % 1 <<< 63 < _
  rw [same, isFinite_unpack_word, beside, limit, ne_eq, ← BitVec.toNat_inj]
  change ¬ exponent.toNat = 2047 ↔ _
  omega

/-- A double with a clear sign is the one of its code. -/
theorem ofCode_code (positive : isNegative value = false) : ofCode (code value) = value := by
  have below : value.toBits.toNat < 1 <<< 63 := Nat.not_le.1 (of_decide_eq_false positive)
  rw [ofCode, code, Nat.mod_eq_of_lt below, UInt64.ofNat_toNat, Float.ofBits_toBits]

/-- A number with its sign set is the negative of the one of its code. -/
theorem neg_ofCode_code (bound : code value ≤ infinityCode) (negative : isNegative value = true) :
    -ofCode (code value) = value := by
  obtain ⟨sign, exponent, fraction, same, beside, signed⟩ := exists_word value.toBits
  obtain rfl := signed.1 (of_decide_eq_true negative)
  have positive : (ofCode (code value)).toBits.toBitVec = word .positive exponent fraction := by
    apply BitVec.eq_of_toNat_eq
    rw [toNat_word]
    exact ((toBits_ofCode bound).trans beside).trans (by simp [Sign.toBitVec])
  -- Negation changes the sign among the bits, and nothing else.
  apply Float.toBits_inj.1
  apply UInt64.toBitVec_inj.1
  change pack Format.binary64
    (unpack Format.binary64 (ofCode (code value)).toBits.toBitVec).neg = value.toBits.toBitVec
  rw [positive, ← unpack_neg_word]
  change pack Format.binary64 (unpack Format.binary64 (word .negative exponent fraction)) = _
  rw [← same]
  exact pack_unpack_of_valid value.toModel.valid

/-- A finite double equals itself. -/
theorem beq_self (finite : value.isFinite = true) : (value == value) = true := by
  rw [Float.beq_self_iff]
  rintro rfl
  revert finite
  decide +kernel

/-- The zeros of both signs are equal. -/
theorem beq_of_code_eq_zero (zero : code value = 0) : (ofCode 0 == value) = true := by
  cases signed : isNegative value with
  | false =>
      rw [← ofCode_code signed, zero]
      decide +kernel
  | true =>
      rw [← neg_ofCode_code (by rw [zero]; exact Nat.zero_le _) signed, zero]
      decide +kernel

end TreeWalk.Double
