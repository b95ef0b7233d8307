import Worksheet.Number.Floating
import Worksheet.Proofs.Decimal.Range

/-!
# Floating-point numbers and their bit patterns

The operations of either width unpack bit patterns and pack what comes of them.  What is
known of packing and unpacking in any format then holds of both widths.
-/

namespace Worksheet

open Binary
open Float.Model (UnpackedFloat)
open Float.Model.UnpackedFloat

open Floating (spec bits)

/-- A type whose operations are those of its format. -/
class LawfulFloating (F : Type) [Floating F] : Prop where
  ample : Ample (spec F)
  valid (value : F) : (spec F).Valid (bits value)
  eq_of_bits {left right : F} (same : bits left = bits right) : left = right
  isFinite_eq (value : F) : Floating.isFinite value = (unpack (spec F) (bits value)).isFinite
  isNaN_eq (value : F) : Floating.isNaN value = (unpack (spec F) (bits value)).isNaN
  lt_iff (left right : F) : left < right ↔
    (unpack (spec F) (bits left)).lt (unpack (spec F) (bits right)) = true
  bits_neg (value : F) : bits (-value) = pack (spec F) (unpack (spec F) (bits value)).neg
  bits_div (left right : F) : bits (left / right) = pack (spec F)
    (UnpackedFloat.div (spec F) (unpack (spec F) (bits left)) (unpack (spec F) (bits right)))
  bits_ofScientific {digits : Nat} {power : Int} {mantissa : Nat} {exponent : Int}
    (canonical : Canonical (spec F) mantissa exponent) (fits : Fits (spec F) exponent)
    (rounds : RoundsTo (spec F) (digits * 10 ^ power) mantissa exponent) :
    bits (OfScientific.ofScientific digits (decide (power < 0)) power.natAbs : F) =
      pack (spec F) (.finite .positive mantissa exponent canonical.pos)
  bits_ofScientific_zero (negative : Bool) (power : Nat) :
    bits (OfScientific.ofScientific 0 negative power : F) = packedZero (spec F) .positive

/-! ### The two widths -/

namespace Binary

theorem ample_single : Ample .binary32 := by
  constructor <;> decide

theorem ample_double : Ample .binary64 := by
  constructor <;> decide

theorem isPowerOfTen_single : ∀ power, (bound : power < 11) →
    isPowerOfTen .binary32 power
      ((Float32.exactlyRepresentablePowersOfTen[power]).toModel.unpack) = true := by
  decide

theorem isPowerOfTen_double : ∀ power, (bound : power < 23) →
    isPowerOfTen .binary64 power
      ((Float.exactlyRepresentablePowersOfTen[power]).toModel.unpack) = true := by
  decide

theorem unpack_toFloat32 {digits : Nat} (lt : digits < 2 ^ 23) :
    digits.toUInt64.toFloat32.toModel.unpack =
      unpack .binary32 (pack .binary32 (ofNat .binary32 digits)) := by
  change unpack .binary32 (pack .binary32 (ofNat .binary32 digits.toUInt64.toNat)) = _
  rw [Nat.toUInt64_eq, UInt64.toNat_ofNat', Nat.mod_eq_of_lt (by omega)]

theorem unpack_toFloat {digits : Nat} (lt : digits < 2 ^ 53) :
    digits.toUInt64.toFloat.toModel.unpack =
      unpack .binary64 (pack .binary64 (ofNat .binary64 digits)) := by
  change unpack .binary64 (pack .binary64 (ofNat .binary64 digits.toUInt64.toNat)) = _
  rw [Nat.toUInt64_eq, UInt64.toNat_ofNat', Nat.mod_eq_of_lt (by omega)]

end Binary

instance : LawfulFloating Float32 where
  ample := ample_single
  valid value := value.toModel.valid
  eq_of_bits {left right} same := by
    obtain ⟨⟨leftBits, _⟩⟩ := left
    obtain ⟨⟨rightBits, _⟩⟩ := right
    obtain rfl : leftBits = rightBits := UInt32.toBitVec_inj.mp same
    rfl
  isFinite_eq _ := rfl
  isNaN_eq _ := rfl
  lt_iff _ _ := decide_eq_true_iff
  bits_neg _ := rfl
  bits_div _ _ := rfl
  bits_ofScientific {digits power mantissa exponent} canonical fits rounds := by
    change (Float32.ofScientific _ _ _).toBits.toBitVec = _
    rw [Float32.ofScientific]
    split
    next small =>
      have checked := isPowerOfTen_single power.natAbs (by omega)
      have lt : digits < 2 ^ (Float.Model.Format.mantissaBits .binary32) :=
        small.1.trans_le (Nat.pow_le_pow_right (by norm_num) (by decide))
      have scaled := scale_ofNat_eq ample_single lt checked canonical rounds
      rw [← unpack_toFloat32 small.1] at scaled
      rw [← scaled]
      split <;> rfl
    next large =>
      rw [ite_negOfNat]
      exact congrArg (pack .binary32) (ofScientific_eq ample_single canonical fits rounds)
  bits_ofScientific_zero negative power := by
    change (Float32.ofScientific _ _ _).toBits.toBitVec = _
    rw [Float32.ofScientific]
    split
    next small =>
      have scaled := scale_zero (isPowerOfTen_single power (by omega)) negative
      have packed : packedZero (spec Float32) .positive =
          pack .binary32 (.zero .positive) := rfl
      rw [packed, ← scaled]
      split <;> rfl
    next => rfl

instance : LawfulFloating Float where
  ample := ample_double
  valid value := value.toModel.valid
  eq_of_bits {left right} same := by
    obtain ⟨⟨leftBits, _⟩⟩ := left
    obtain ⟨⟨rightBits, _⟩⟩ := right
    obtain rfl : leftBits = rightBits := UInt64.toBitVec_inj.mp same
    rfl
  isFinite_eq _ := rfl
  isNaN_eq _ := rfl
  lt_iff _ _ := decide_eq_true_iff
  bits_neg _ := rfl
  bits_div _ _ := rfl
  bits_ofScientific {digits power mantissa exponent} canonical fits rounds := by
    change (Float.ofScientific _ _ _).toBits.toBitVec = _
    rw [Float.ofScientific]
    split
    next small =>
      have checked := isPowerOfTen_double power.natAbs (by omega)
      have lt : digits < 2 ^ (Float.Model.Format.mantissaBits .binary64) :=
        small.1.trans_le (Nat.pow_le_pow_right (by norm_num) (by decide))
      have scaled := scale_ofNat_eq ample_double lt checked canonical rounds
      rw [← unpack_toFloat small.1] at scaled
      rw [← scaled]
      split <;> rfl
    next large =>
      rw [ite_negOfNat]
      exact congrArg (pack .binary64) (ofScientific_eq ample_double canonical fits rounds)
  bits_ofScientific_zero negative power := by
    change (Float.ofScientific _ _ _).toBits.toBitVec = _
    rw [Float.ofScientific]
    split
    next small =>
      have scaled := scale_zero (isPowerOfTen_double power (by omega)) negative
      have packed : packedZero (spec Float) .positive =
          pack .binary64 (.zero .positive) := rfl
      rw [packed, ← scaled]
      split <;> rfl
    next => rfl

end Worksheet
