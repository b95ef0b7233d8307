import Worksheet.Decimal.Binary
import Worksheet.Proofs.Decimal.Rounding

/-!
# Bit patterns of binary numbers

The fields of a bit pattern are what division by powers of two leaves of it.  Packing
and unpacking undo each other on the numbers that are neither infinite nor undefined.
-/

namespace Worksheet.Binary

open Float.Model (UnpackedFloat)
open Float.Model.UnpackedFloat

variable {spec : Float.Model.Format}

/-! ### Fields -/

theorem toNat_unpackMantissa (bits : BitVec spec.numBits) :
    (unpackMantissa bits).toNat = bits.toNat % 2 ^ spec.mantissaBitsWithoutImplicit := by
  have := spec.hm
  rw [unpackMantissa, BitVec.toNat_cast, BitVec.extractLsb_toNat, Nat.shiftRight_zero]
  congr 2
  omega

theorem toNat_unpackExponent (bits : BitVec spec.numBits) :
    (unpackExponent bits).toNat =
      bits.toNat / 2 ^ spec.mantissaBitsWithoutImplicit % 2 ^ spec.exponentBits := by
  have := spec.he
  rw [unpackExponent, BitVec.toNat_cast, BitVec.extractLsb_toNat, Nat.shiftRight_eq_div_pow]
  congr 2
  omega

theorem toNat_unpackSign (bits : BitVec spec.numBits) :
    (unpackSign bits).toNat =
      bits.toNat / 2 ^ (spec.mantissaBitsWithoutImplicit + spec.exponentBits) := by
  have bound := bits.isLt
  rw [unpackSign, BitVec.toNat_cast, BitVec.extractLsb_toNat, Nat.shiftRight_eq_div_pow]
  apply Nat.mod_eq_of_lt
  rw [Nat.div_lt_iff_lt_mul (by positivity), ← Nat.pow_add]
  refine bound.trans_le (Nat.pow_le_pow_right (by norm_num) ?_)
  rw [Float.Model.Format.numBits]
  omega

theorem toNat_append {high low : Nat} (first : BitVec high) (second : BitVec low) :
    (first ++ second).toNat = first.toNat * 2 ^ low + second.toNat := by
  rw [BitVec.toNat_append, ← Nat.shiftLeft_add_eq_or_of_lt second.isLt, Nat.shiftLeft_eq]

theorem toNat_packComponents (sign : Sign) (exponent : BitVec spec.exponentBits)
    (mantissa : BitVec spec.mantissaBitsWithoutImplicit) :
    (packComponents spec sign exponent mantissa).toNat =
      (sign.toBitVec.toNat * 2 ^ spec.exponentBits + exponent.toNat) *
        2 ^ spec.mantissaBitsWithoutImplicit + mantissa.toNat := by
  rw [packComponents, toNat_append, toNat_append]

theorem toBitVec_ofBitVec (bit : BitVec 1) : (Sign.ofBitVec bit).toBitVec = bit := by
  rw [Sign.ofBitVec]
  split
  next zero => rw [zero, Sign.toBitVec]
  next nonzero =>
    rw [Sign.toBitVec]
    apply BitVec.eq_of_toNat_eq
    have bound := bit.isLt
    have different : bit.toNat ≠ 0 := fun same => nonzero (BitVec.eq_of_toNat_eq same)
    simp only [BitVec.toNat_ofNat]
    omega

theorem ofBitVec_toBitVec (sign : Sign) : Sign.ofBitVec sign.toBitVec = sign := by
  cases sign <;> rfl

theorem packComponents_unpack (bits : BitVec spec.numBits) :
    packComponents spec (Sign.ofBitVec (unpackSign bits)) (unpackExponent bits)
      (unpackMantissa bits) = bits := by
  apply BitVec.eq_of_toNat_eq
  rw [toNat_packComponents, toBitVec_ofBitVec, toNat_unpackSign, toNat_unpackExponent,
    toNat_unpackMantissa, Nat.pow_add, ← Nat.div_div_eq_div_mul, Nat.div_add_mod',
    Nat.div_add_mod']

theorem unpackSign_packComponents (sign : Sign) (exponent : BitVec spec.exponentBits)
    (mantissa : BitVec spec.mantissaBitsWithoutImplicit) :
    unpackSign (packComponents spec sign exponent mantissa) = sign.toBitVec := by
  apply BitVec.eq_of_toNat_eq
  have packed := toNat_packComponents sign exponent mantissa
  rw [toNat_unpackSign, packed, Nat.pow_add, ← Nat.div_div_eq_div_mul,
    Nat.add_comm _ mantissa.toNat, Nat.add_mul_div_right _ _ (by positivity),
    Nat.div_eq_of_lt mantissa.isLt, Nat.zero_add, Nat.add_comm _ exponent.toNat,
    Nat.add_mul_div_right _ _ (by positivity), Nat.div_eq_of_lt exponent.isLt, Nat.zero_add]

/-! ### Unpacking -/

def signOf (spec : Float.Model.Format) (bits : Nat) : Sign :=
  if (Format.ofSpec spec).isNegative bits then .negative else .positive

theorem ofBitVec_unpackSign (bits : BitVec spec.numBits) :
    Sign.ofBitVec (unpackSign bits) = signOf spec bits.toNat := by
  have value := toNat_unpackSign bits
  have bound := (unpackSign bits).isLt
  have negative : (Format.ofSpec spec).isNegative bits.toNat =
      decide ((unpackSign bits).toNat % 2 = 1) := by
    rw [value]
    rfl
  rw [Sign.ofBitVec, signOf, negative]
  by_cases zero : unpackSign bits = 0#1
  · rw [if_pos zero, zero]
    rfl
  · have different : (unpackSign bits).toNat ≠ 0 := fun same => zero (BitVec.eq_of_toNat_eq same)
    rw [if_neg zero, if_pos (decide_eq_true (by omega))]

theorem eq_neg_one_iff {width : Nat} (field : BitVec width) :
    field = -1#(width) ↔ field.toNat + 1 = 2 ^ width := by
  have positive : 0 < 2 ^ width := Nat.two_pow_pos width
  rw [BitVec.neg_one_eq_allOnes, ← BitVec.toNat_inj, BitVec.toNat_allOnes]
  omega

theorem eq_zero_iff {width : Nat} (field : BitVec width) : field = 0#(width) ↔ field.toNat = 0 := by
  rw [← BitVec.toNat_inj, BitVec.toNat_zero]

theorem exponentBias_eq (spec : Float.Model.Format) :
    (spec.exponentBias : Int) = 2 ^ (spec.exponentBits - 1) - 1 := by
  have positive : 0 < 2 ^ (spec.exponentBits - 1) := Nat.two_pow_pos _
  rw [Float.Model.Format.exponentBias, Nat.cast_sub positive]
  push_cast
  rfl

theorem lowestExponent_eq (spec : Float.Model.Format) :
    (Format.ofSpec spec).lowestExponent = spec.minExponent := by
  simp only [Format.lowestExponent, Format.ofSpec, Float.Model.Format.minExponent,
    Float.Model.Format.mantissaBits, Nat.pow_eq]
  push_cast
  ring

theorem magnitude_eq (bits : BitVec spec.numBits) :
    (Format.ofSpec spec).magnitude bits.toNat =
      if (unpackExponent bits).toNat + 1 = 2 ^ spec.exponentBits then
        if (unpackMantissa bits).toNat = 0 then .infinite else .notANumber
      else if (unpackExponent bits).toNat = 0 then
        if (unpackMantissa bits).toNat = 0 then .zero
        else .finite ⟨(unpackMantissa bits).toNat, spec.minExponent, false⟩
      else
        .finite ⟨2 ^ spec.mantissaBitsWithoutImplicit + (unpackMantissa bits).toNat,
          spec.minExponent + ((unpackExponent bits).toNat - 1 : Nat),
          (unpackMantissa bits).toNat = 0 && (unpackExponent bits).toNat ≠ 1⟩ := by
  rw [toNat_unpackMantissa, toNat_unpackExponent, ← lowestExponent_eq]
  rfl

/-- What a bit pattern stands for is what unpacking finds. -/
theorem unpack_eq (bits : BitVec spec.numBits) :
    match (Format.ofSpec spec).magnitude bits.toNat with
    | .zero => unpack spec bits = .zero (signOf spec bits.toNat)
    | .finite value => ∃ pos, unpack spec bits =
        .finite (signOf spec bits.toNat) value.mantissa value.exponent pos
    | .infinite => unpack spec bits = .infinity (signOf spec bits.toNat)
    | .notANumber => unpack spec bits = .notANumber := by
  have bias := exponentBias_eq spec
  rw [magnitude_eq]
  by_cases special : unpackExponent bits = -1#(spec.exponentBits)
  · rw [if_pos ((eq_neg_one_iff _).mp special)]
    by_cases empty : unpackMantissa bits = 0#(spec.mantissaBitsWithoutImplicit)
    · rw [if_pos ((eq_zero_iff _).mp empty)]
      rw [unpack, if_pos special, if_pos empty, ofBitVec_unpackSign]
    · rw [if_neg (mt (eq_zero_iff _).mpr empty)]
      rw [unpack, if_pos special, if_neg empty]
  · rw [if_neg (mt (eq_neg_one_iff _).mpr special)]
    by_cases small : unpackExponent bits = 0#(spec.exponentBits)
    · have stored := (eq_zero_iff _).mp small
      rw [if_pos stored]
      by_cases empty : unpackMantissa bits = 0#(spec.mantissaBitsWithoutImplicit)
      · rw [if_pos ((eq_zero_iff _).mp empty)]
        rw [unpack, if_neg special, if_pos small, dif_pos empty, ofBitVec_unpackSign]
      · have filled := mt (eq_zero_iff _).mpr empty
        rw [if_neg filled]
        refine ⟨Nat.pos_of_ne_zero filled, ?_⟩
        rw [unpack, if_neg special, if_pos small, dif_neg empty, ofBitVec_unpackSign]
        simp only [finite.injEq, true_and, stored]
        rw [Float.Model.Format.minExponent, Float.Model.Format.mantissaBits, bias]
        push_cast
        ring
    · have stored := mt (eq_zero_iff _).mpr small
      rw [if_neg stored]
      refine ⟨by positivity, ?_⟩
      rw [unpack, if_neg special, if_neg small, ofBitVec_unpackSign]
      simp only [finite.injEq, true_and, toNat_append]
      refine ⟨by simp, ?_⟩
      rw [Float.Model.Format.minExponent, Float.Model.Format.mantissaBits, bias]
      push_cast
      omega

/-! ### Packing -/

theorem mantissaBits_sub_one (spec : Float.Model.Format) :
    spec.mantissaBits - 1 = spec.mantissaBitsWithoutImplicit := by
  rw [Float.Model.Format.mantissaBits]
  omega

theorem minExponent_eq (spec : Float.Model.Format) :
    spec.minExponent + spec.exponentBias + spec.mantissaBitsWithoutImplicit = 1 := by
  rw [exponentBias_eq, Float.Model.Format.minExponent, Float.Model.Format.mantissaBits]
  push_cast
  ring

def Fits (spec : Float.Model.Format) (exponent : Int) : Prop :=
  exponent + spec.exponentBias + spec.mantissaBitsWithoutImplicit + 1 < 2 ^ spec.exponentBits

theorem pack_finite {mantissa : Nat} {exponent : Int} (sign : Sign)
    (canonical : Canonical spec mantissa exponent) (fits : Fits spec exponent) :
    pack spec (.finite sign mantissa exponent canonical.pos) =
      packComponents spec sign
        (BitVec.ofNat _ (if mantissa < 2 ^ spec.mantissaBitsWithoutImplicit then 0
          else (exponent + spec.exponentBias + spec.mantissaBitsWithoutImplicit).toNat))
        (BitVec.ofNat _ mantissa) := by
  have least := minExponent_eq spec
  have above := canonical.minExponent_le
  have stored : ¬2 ^ spec.exponentBits ≤
      (exponent + spec.exponentBias + spec.mantissaBitsWithoutImplicit).toNat + 1 := by
    rw [Fits] at fits
    have cast : ((2 ^ spec.exponentBits : Nat) : Int) = 2 ^ spec.exponentBits := by push_cast; rfl
    omega
  rw [pack, if_neg stored]
  by_cases small : mantissa < 2 ^ spec.mantissaBitsWithoutImplicit
  · have bits := (Nat.log2_lt canonical.pos.ne').mpr small
    rw [if_neg (by rw [Float.Model.Format.mantissaBits]; omega), if_pos small]
  · have bits := (Nat.log2_eq_iff canonical.pos.ne').mpr ⟨not_lt.mp small, by
      have lt := canonical.lt
      rwa [Float.Model.Format.mantissaBits, Nat.add_comm] at lt⟩
    rw [if_pos (by rw [Float.Model.Format.mantissaBits, bits, Nat.add_comm]), if_neg small]

theorem toNat_withLeading {mantissa : Nat}
    (least : 2 ^ spec.mantissaBitsWithoutImplicit ≤ mantissa)
    (lt : mantissa < 2 ^ spec.mantissaBits) :
    (1#1 ++ BitVec.ofNat spec.mantissaBitsWithoutImplicit mantissa).toNat = mantissa := by
  rw [Float.Model.Format.mantissaBits, Nat.pow_add] at lt
  have rest : mantissa % 2 ^ spec.mantissaBitsWithoutImplicit =
      mantissa - 2 ^ spec.mantissaBitsWithoutImplicit := by
    rw [Nat.mod_eq_sub_mod least, Nat.mod_eq_of_lt (by omega)]
  rw [toNat_append, BitVec.toNat_ofNat, BitVec.toNat_ofNat, rest, show 1 % 2 ^ 1 = 1 from rfl,
    one_mul]
  omega

theorem unpack_pack {mantissa : Nat} {exponent : Int} (sign : Sign)
    (canonical : Canonical spec mantissa exponent) (fits : Fits spec exponent) :
    unpack spec (pack spec (.finite sign mantissa exponent canonical.pos)) =
      .finite sign mantissa exponent canonical.pos := by
  have least := minExponent_eq spec
  have above := canonical.minExponent_le
  have wide : 2 ^ 1 ≤ 2 ^ spec.exponentBits := Nat.pow_le_pow_right (by norm_num) spec.he
  have cast : ((2 ^ spec.exponentBits : Nat) : Int) = 2 ^ spec.exponentBits := by push_cast; rfl
  rw [pack_finite sign canonical fits, unpack]
  simp only [unpackMantissa_packComponents, unpackExponent_packComponents,
    unpackSign_packComponents, ofBitVec_toBitVec]
  by_cases small : mantissa < 2 ^ spec.mantissaBitsWithoutImplicit
  · have value : (BitVec.ofNat spec.mantissaBitsWithoutImplicit mantissa).toNat = mantissa := by
      rw [BitVec.toNat_ofNat, Nat.mod_eq_of_lt small]
    have smallest : exponent = spec.minExponent := by
      refine canonical.normal.resolve_right fun full => ?_
      rw [mantissaBits_sub_one] at full
      omega
    simp only [if_pos small]
    rw [if_neg (by rw [eq_neg_one_iff, BitVec.toNat_zero]; omega), if_pos trivial,
      dif_neg (by rw [eq_zero_iff, value]; exact canonical.pos.ne')]
    simp only [finite.injEq, true_and, value, BitVec.toNat_zero]
    omega
  · have value := toNat_withLeading (not_lt.mp small) canonical.lt
    simp only [if_neg small]
    have stored : (BitVec.ofNat spec.exponentBits
        (exponent + spec.exponentBias + spec.mantissaBitsWithoutImplicit).toNat).toNat =
        (exponent + spec.exponentBias + spec.mantissaBitsWithoutImplicit).toNat := by
      rw [BitVec.toNat_ofNat, Nat.mod_eq_of_lt]
      rw [Fits] at fits
      omega
    rw [Fits] at fits
    rw [if_neg (by rw [eq_neg_one_iff, stored]; omega), if_neg (by rw [eq_zero_iff, stored]; omega)]
    simp only [finite.injEq, true_and, value, stored]
    omega

/-- Unpacking finds a canonical number, and packing it restores the bits. -/
theorem canonical_of_unpack {bits : BitVec spec.numBits} {sign : Sign} {mantissa : Nat}
    {exponent : Int} {pos : 0 < mantissa} (wide : 2 ≤ spec.exponentBits)
    (unpacked : unpack spec bits = .finite sign mantissa exponent pos) :
    Canonical spec mantissa exponent ∧ Fits spec exponent ∧
      pack spec (.finite sign mantissa exponent pos) = bits := by
  have least := minExponent_eq spec
  have large : 2 ^ 2 ≤ 2 ^ spec.exponentBits := Nat.pow_le_pow_right (by norm_num) wide
  have cast : ((2 ^ spec.exponentBits : Nat) : Int) = 2 ^ spec.exponentBits := by push_cast; rfl
  have whole : 2 ^ spec.mantissaBits = 2 * 2 ^ spec.mantissaBitsWithoutImplicit := by
    rw [Float.Model.Format.mantissaBits, Nat.pow_add, pow_one]
  have mantissaBound := (unpackMantissa bits).isLt
  have exponentBound := (unpackExponent bits).isLt
  have known : Canonical spec mantissa exponent ∧ Fits spec exponent ∧
      sign = Sign.ofBitVec (unpackSign bits) ∧
      BitVec.ofNat spec.mantissaBitsWithoutImplicit mantissa = unpackMantissa bits ∧
      BitVec.ofNat spec.exponentBits (if mantissa < 2 ^ spec.mantissaBitsWithoutImplicit then 0
          else (exponent + spec.exponentBias + spec.mantissaBitsWithoutImplicit).toNat) =
        unpackExponent bits := by
    rw [unpack] at unpacked
    split at unpacked
    next => split at unpacked <;> cases unpacked
    next notSpecial =>
      rw [eq_neg_one_iff] at notSpecial
      split at unpacked
      next small =>
        split at unpacked
        next => cases unpacked
        next filled =>
          rw [eq_zero_iff] at small
          cases unpacked
          refine ⟨⟨pos, by omega, by omega, .inl (by omega)⟩, by rw [Fits]; omega, rfl, ?_, ?_⟩
          · rw [← BitVec.toNat_inj, BitVec.toNat_ofNat, Nat.mod_eq_of_lt mantissaBound]
          · rw [if_pos mantissaBound, ← BitVec.toNat_inj, small, BitVec.toNat_ofNat, Nat.zero_mod]
      next large =>
        rw [eq_zero_iff] at large
        cases unpacked
        have value : (1#1 ++ unpackMantissa bits).toNat =
            2 ^ spec.mantissaBitsWithoutImplicit + (unpackMantissa bits).toNat := by
          rw [toNat_append]
          simp
        rw [value]
        refine ⟨⟨by omega, by omega, by omega, .inr ?_⟩, by rw [Fits]; omega, rfl, ?_, ?_⟩
        · rw [mantissaBits_sub_one]
          omega
        · rw [← BitVec.toNat_inj, BitVec.toNat_ofNat, Nat.add_mod_left,
            Nat.mod_eq_of_lt mantissaBound]
        · rw [if_neg (by omega), ← BitVec.toNat_inj, BitVec.toNat_ofNat]
          have stored : (((unpackExponent bits).toNat : Int) -
              (spec.exponentBias + spec.mantissaBitsWithoutImplicit) + spec.exponentBias +
              spec.mantissaBitsWithoutImplicit).toNat = (unpackExponent bits).toNat := by omega
          rw [stored, Nat.mod_eq_of_lt exponentBound]
  obtain ⟨canonical, fits, rfl, sameMantissa, sameExponent⟩ := known
  refine ⟨canonical, fits, ?_⟩
  rw [pack_finite _ canonical fits, sameMantissa, sameExponent, packComponents_unpack]

end Worksheet.Binary
