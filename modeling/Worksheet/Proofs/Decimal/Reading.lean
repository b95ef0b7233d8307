import Worksheet.Proofs.Decimal.Packing

/-!
# Reading decimals

A decimal is read as the number to which its value rounds, both where the digits and
the power of ten are numbers of the format themselves and where they are not.
-/

namespace Worksheet.Binary

open Float.Model (UnpackedFloat totalExponent)
open Float.Model.UnpackedFloat

variable {spec : Float.Model.Format} {value : ℚ} {mantissa : Nat} {exponent : Int}

theorem RoundsTo.of_eq (same : value = mantissa * 2 ^ exponent) :
    RoundsTo spec value mantissa exponent := by
  have scale : (2 : ℚ) ^ exponent ≠ 0 := by positivity
  have quotient : value / 2 ^ exponent = mantissa := by rw [same, mul_div_cancel_right₀ _ scale]
  refine ⟨⟨⟨by linarith, by linarith⟩, fun _ => ?_⟩, fun _ _ => by linarith⟩
  rw [quotient]
  exact ⟨by linarith, by linarith⟩

/-! ### The range of a format -/

theorem RoundsTo.lower (rounds : RoundsTo spec value mantissa exponent)
    (canonical : Canonical spec mantissa exponent) : 2 ^ (spec.minExponent - 1) ≤ value := by
  have scale : (0 : ℚ) < 2 ^ exponent := by positivity
  have one : (1 : ℚ) ≤ mantissa := by exact_mod_cast canonical.pos
  have low := rounds.nearest.1.1
  rw [le_div_iff₀ scale] at low
  calc (2 : ℚ) ^ (spec.minExponent - 1) ≤ 2 ^ (exponent - 1) :=
        zpow_le_zpow_right₀ (by norm_num) (by have := canonical.minExponent_le; omega)
    _ = 1 / 2 * 2 ^ exponent := by rw [zpow_sub_one₀ (by norm_num)]; ring
    _ ≤ (mantissa - 1 / 2) * 2 ^ exponent := by gcongr; linarith
    _ ≤ value := low

theorem RoundsTo.digits_pos {digits : Nat} {power : Int}
    (rounds : RoundsTo spec (digits * 10 ^ power) mantissa exponent)
    (canonical : Canonical spec mantissa exponent) : 0 < digits := by
  refine Nat.pos_of_ne_zero ?_
  rintro rfl
  have lower := rounds.lower canonical
  have positive : (0 : ℚ) < 2 ^ (spec.minExponent - 1) := by positivity
  rw [Nat.cast_zero, zero_mul] at lower
  linarith

/-- The exponents of the format reach further than its mantissas. -/
def Ample (spec : Float.Model.Format) : Prop :=
  2 ≤ spec.exponentBits ∧ spec.mantissaBits ≤ 2 ^ (spec.exponentBits - 1)

theorem two_pow_exponentBits (ample : Ample spec) :
    (2 : Int) ^ spec.exponentBits = 2 * 2 ^ (spec.exponentBits - 1) := by
  have wide := ample.1
  rw [← pow_succ']
  congr 1
  omega

theorem minExponent_of_ample (ample : Ample spec) :
    -2 ^ spec.exponentBits ≤ spec.minExponent - 1 ∧ spec.minExponent ≤ 1 - spec.mantissaBits := by
  have double := two_pow_exponentBits ample
  obtain ⟨wide, reach⟩ := ample
  have large : (2 : Int) ^ 1 ≤ 2 ^ (spec.exponentBits - 1) :=
    pow_le_pow_right₀ (by norm_num) (by omega)
  zify at reach
  rw [Float.Model.Format.minExponent]
  omega

theorem exponent_of_fits (ample : Ample spec) (fits : Fits spec exponent) :
    spec.mantissaBits + exponent ≤ 2 ^ spec.exponentBits := by
  have double := two_pow_exponentBits ample
  have large : (0 : Int) < 2 ^ (spec.exponentBits - 1) := by positivity
  rw [Fits, exponentBias_eq] at fits
  rw [Float.Model.Format.mantissaBits]
  push_cast
  omega

/-! ### Decimals in general -/

theorem value_shift (whole shift : Nat) :
    ((whole <<< shift : Nat) : ℚ) * 2 ^ (-(shift : Int)) = whole := by
  rw [Nat.shiftLeft_eq, zpow_neg, zpow_natCast]
  push_cast
  rw [mul_inv_cancel_right₀ (by positivity)]

theorem two_zpow_le_ten {size : Int} (nonneg : 0 ≤ size) : (2 : ℚ) ^ size ≤ 10 ^ size := by
  obtain ⟨count, rfl⟩ := Int.eq_ofNat_of_zero_le nonneg
  exact_mod_cast Nat.pow_le_pow_left (by norm_num) count

theorem ten_zpow_le_two {power : Int} (negative : power ≤ 0) : (10 : ℚ) ^ power ≤ 2 ^ power := by
  have inverse := two_zpow_le_ten (neg_nonneg.mpr negative)
  rw [zpow_neg, zpow_neg] at inverse
  exact (inv_le_inv₀ (by positivity) (by positivity)).mp inverse

theorem RoundsTo.power_le (ample : Ample spec) {digits : Nat} {power : Int}
    (rounds : RoundsTo spec (digits * 10 ^ power) mantissa exponent)
    (canonical : Canonical spec mantissa exponent) (fits : Fits spec exponent) :
    power ≤ 2 ^ spec.exponentBits := by
  have upper := rounds.upper canonical
  have high := exponent_of_fits ample fits
  have one : (1 : ℚ) ≤ digits := by exact_mod_cast rounds.digits_pos canonical
  by_contra large
  have positive : (0 : Int) < 2 ^ spec.exponentBits := by positivity
  have reach : (2 : ℚ) ^ (spec.mantissaBits + exponent) ≤ digits * 10 ^ power :=
    calc (2 : ℚ) ^ (spec.mantissaBits + exponent) ≤ 2 ^ power :=
          zpow_le_zpow_right₀ (by norm_num) (by omega)
      _ ≤ 10 ^ power := two_zpow_le_ten (by omega)
      _ ≤ digits * 10 ^ power := le_mul_of_one_le_left (by positivity) one
  linarith

theorem RoundsTo.le_power (ample : Ample spec) {digits : Nat} {power : Int}
    (rounds : RoundsTo spec (digits * 10 ^ power) mantissa exponent)
    (canonical : Canonical spec mantissa exponent) :
    -((2 ^ spec.exponentBits : Int) + digits.log2) ≤ power := by
  have lower := rounds.lower canonical
  obtain ⟨low, -⟩ := minExponent_of_ample ample
  by_contra small
  have positive : (0 : Int) < 2 ^ spec.exponentBits := by positivity
  have whole : (digits : ℚ) < 2 ^ ((digits.log2 : Int) + 1) := by
    exact_mod_cast digits.lt_log2_self
  have tenth : (10 : ℚ) ^ power ≤ 2 ^ power := ten_zpow_le_two (by omega)
  have reach : (digits : ℚ) * 10 ^ power < 2 ^ (spec.minExponent - 1) :=
    calc (digits : ℚ) * 10 ^ power ≤ digits * 2 ^ power := by gcongr
      _ < 2 ^ ((digits.log2 : Int) + 1) * 2 ^ power := by gcongr
      _ = 2 ^ ((digits.log2 : Int) + 1 + power) := by rw [← zpow_add₀ (by norm_num)]
      _ ≤ 2 ^ (spec.minExponent - 1) := zpow_le_zpow_right₀ (by norm_num) (by omega)
  linarith

theorem ofScientific_eq (ample : Ample spec) {digits : Nat} {power : Int}
    (canonical : Canonical spec mantissa exponent) (fits : Fits spec exponent)
    (rounds : RoundsTo spec (digits * 10 ^ power) mantissa exponent) :
    ofScientific spec digits power = .finite .positive mantissa exponent canonical.pos := by
  have pos := rounds.digits_pos canonical
  have notLarge := not_lt.mpr (rounds.power_le ample canonical fits)
  have notSmall := not_lt.mpr (rounds.le_power ample canonical)
  rw [ofScientific, dif_neg pos.ne', if_neg notLarge, if_neg notSmall]
  split
  next nonneg =>
    have full : 2 ^ (spec.mantissaBits - 1) ≤
        digits <<< spec.mantissaBits * 10 ^ power.toNat := by
      have positive : 0 < 10 ^ power.toNat := by positivity
      rw [Nat.shiftLeft_eq]
      calc 2 ^ (spec.mantissaBits - 1) ≤ 2 ^ spec.mantissaBits :=
            Nat.pow_le_pow_right (by norm_num) (by omega)
        _ ≤ digits * 2 ^ spec.mantissaBits := Nat.le_mul_of_pos_left _ pos
        _ ≤ digits * 2 ^ spec.mantissaBits * 10 ^ power.toNat :=
            Nat.le_mul_of_pos_right _ positive
    refine mul_eq _ _ (le_targetExponent_of_full full) canonical ?_
    have whole : (10 : ℚ) ^ power.toNat = 10 ^ power := by
      rw [← zpow_natCast, Int.toNat_of_nonneg nonneg]
    rwa [value_shift, zpow_zero, mul_one, Nat.cast_pow, Nat.cast_ofNat, whole]
  next negative =>
    refine div_eq _ _ canonical ?_
    have same : (digits : ℚ) * 2 ^ (0 : Int) / ((10 ^ (-power).toNat : Nat) * 2 ^ (0 : Int)) =
        digits * 10 ^ power := by
      have whole : (10 : ℚ) ^ (-power).toNat = (10 ^ power)⁻¹ := by
        rw [← zpow_natCast, Int.toNat_of_nonneg (by omega), zpow_neg]
      rw [zpow_zero, mul_one, mul_one]
      push_cast
      rw [whole, div_inv_eq_mul]
    rwa [same]

/-! ### Small whole numbers and powers of ten -/

/-- The places by which a whole number is shifted until it fills the mantissa. -/
def room (spec : Float.Model.Format) (whole : Nat) : Nat :=
  spec.mantissaBits - 1 - whole.log2

section Room

variable {whole : Nat}

theorem room_add_log2 (pos : 0 < whole) (lt : whole < 2 ^ spec.mantissaBits) :
    whole.log2 + room spec whole + 1 = spec.mantissaBits := by
  have size := (Nat.log2_lt pos.ne').mpr lt
  rw [room]
  omega

theorem targetExponent_ofNat (ample : Ample spec) (pos : 0 < whole)
    (lt : whole < 2 ^ spec.mantissaBits) :
    spec.targetExponent (totalExponent whole 0) = -room spec whole := by
  have filled := room_add_log2 pos lt
  obtain ⟨-, least⟩ := minExponent_of_ample ample
  rw [Float.Model.Format.targetExponent, totalExponent]
  omega

theorem le_shift_room (pos : 0 < whole) (lt : whole < 2 ^ spec.mantissaBits) :
    2 ^ (spec.mantissaBits - 1) ≤ whole <<< room spec whole := by
  have filled := room_add_log2 pos lt
  rw [Nat.shiftLeft_eq]
  calc 2 ^ (spec.mantissaBits - 1) = 2 ^ whole.log2 * 2 ^ room spec whole := by
        rw [← Nat.pow_add]
        congr 1
        omega
    _ ≤ whole * 2 ^ room spec whole := Nat.mul_le_mul_right _ (Nat.log2_self_le pos.ne')

theorem shift_room_lt (pos : 0 < whole) (lt : whole < 2 ^ spec.mantissaBits) :
    whole <<< room spec whole < 2 ^ spec.mantissaBits := by
  have filled := room_add_log2 pos lt
  rw [Nat.shiftLeft_eq]
  calc whole * 2 ^ room spec whole < 2 ^ (whole.log2 + 1) * 2 ^ room spec whole :=
        Nat.mul_lt_mul_of_pos_right Nat.lt_log2_self (Nat.two_pow_pos _)
    _ = 2 ^ spec.mantissaBits := by
        rw [← Nat.pow_add]
        congr 1
        omega

theorem canonical_shift_room (ample : Ample spec) (pos : 0 < whole)
    (lt : whole < 2 ^ spec.mantissaBits) :
    Canonical spec (whole <<< room spec whole) (-room spec whole) := by
  have filled := room_add_log2 pos lt
  have low := le_shift_room pos lt
  obtain ⟨-, least⟩ := minExponent_of_ample ample
  refine ⟨(Nat.two_pow_pos _).trans_le low, shift_room_lt pos lt, ?_, .inr low⟩
  omega

theorem fits_room (ample : Ample spec) (pos : 0 < whole)
    (lt : whole < 2 ^ spec.mantissaBits) : Fits spec (-room spec whole) := by
  have double := two_pow_exponentBits ample
  have filled := room_add_log2 pos lt
  obtain ⟨wide, reach⟩ := ample
  zify at reach
  rw [Fits, exponentBias_eq, double]
  rw [Float.Model.Format.mantissaBits] at reach filled
  push_cast at reach
  omega

theorem ofNat_eq (ample : Ample spec) (pos : 0 < whole) (lt : whole < 2 ^ spec.mantissaBits) :
    ofNat spec whole = .finite .positive (whole <<< room spec whole) (-room spec whole)
      (canonical_shift_room ample pos lt).pos := by
  have canonical := canonical_shift_room ample pos lt
  have value := value_shift whole (room spec whole)
  have order : compare (whole : Int) 0 = .gt := by
    rw [Int.compare_eq_gt]
    exact_mod_cast pos
  rw [ofNat, ofInt, UnpackedFloat.normalize, order]
  dsimp only
  rw [Int.toNat_natCast, UnpackedFloat.round, targetExponent_ofNat ample pos lt,
    decreaseExponent]
  dsimp only
  have amount : (0 - -(room spec whole : Int)).toNat = room spec whole := by omega
  have place : (0 : Int) - (room spec whole : Nat) = -room spec whole := by omega
  rw [amount, place]
  refine roundWithAccuracy_eq .positive ?_ ?_ canonical (RoundsTo.of_eq value.symm)
  · rw [Describes, ← value, mul_div_cancel_right₀ _ (by positivity)]
  · exact le_targetExponent_of_full (le_shift_room pos lt)

theorem unpack_ofNat (ample : Ample spec) (pos : 0 < whole)
    (lt : whole < 2 ^ spec.mantissaBits) :
    ∃ mantissa exponent pos, unpack spec (pack spec (ofNat spec whole)) =
        .finite .positive mantissa exponent pos ∧
      (mantissa * 2 ^ exponent : ℚ) = whole ∧ 2 ^ (spec.mantissaBits - 1) ≤ mantissa := by
  have canonical := canonical_shift_room ample pos lt
  refine ⟨_, _, canonical.pos, ?_, value_shift whole (room spec whole), le_shift_room pos lt⟩
  rw [ofNat_eq ample pos lt, unpack_pack .positive canonical (fits_room ample pos lt)]

end Room

/-- The unpacked number is a power of ten with all bits of the mantissa in use. -/
def isPowerOfTen (spec : Float.Model.Format) (power : Nat) : UnpackedFloat → Bool
  | .finite .positive mantissa exponent _ =>
      2 ^ (spec.mantissaBits - 1) ≤ mantissa &&
        mantissa * 2 ^ exponent.toNat = 10 ^ power * 2 ^ (-exponent).toNat
  | _ => false

theorem finite_of_isPowerOfTen {power : Nat} {number : UnpackedFloat}
    (checked : isPowerOfTen spec power number = true) :
    ∃ mantissa exponent pos, number = .finite .positive mantissa exponent pos ∧
      (mantissa * 2 ^ exponent : ℚ) = 10 ^ power ∧ 2 ^ (spec.mantissaBits - 1) ≤ mantissa := by
  unfold isPowerOfTen at checked
  split at checked
  next mantissa exponent pos =>
    simp only [Bool.and_eq_true, decide_eq_true_eq] at checked
    obtain ⟨full, equal⟩ := checked
    refine ⟨mantissa, exponent, pos, rfl, ?_, full⟩
    have equal' : (mantissa : ℚ) * 2 ^ exponent.toNat = 10 ^ power * 2 ^ (-exponent).toNat := by
      exact_mod_cast equal
    have scale : (2 : ℚ) ^ exponent = 2 ^ exponent.toNat / 2 ^ (-exponent).toNat := by
      rw [← zpow_natCast, ← zpow_natCast, ← zpow_sub₀ (by norm_num)]
      congr 1
      omega
    rw [scale, ← mul_div_assoc, equal', mul_div_cancel_right₀ _ (by positivity)]
  next => cases checked

theorem div_ofNat_eq (ample : Ample spec) {whole power : Nat} {ten : UnpackedFloat}
    (lt : whole < 2 ^ spec.mantissaBits) (checked : isPowerOfTen spec power ten = true)
    (canonical : Canonical spec mantissa exponent)
    (rounds : RoundsTo spec (whole * 10 ^ (-(power : Int))) mantissa exponent) :
    UnpackedFloat.div spec (unpack spec (pack spec (ofNat spec whole))) ten =
      .finite .positive mantissa exponent canonical.pos := by
  have pos := rounds.digits_pos canonical
  obtain ⟨first, low, firstPos, unpacked, firstValue, -⟩ := unpack_ofNat ample pos lt
  obtain ⟨second, scale, secondPos, rfl, secondValue, -⟩ := finite_of_isPowerOfTen checked
  rw [unpacked]
  refine div_eq _ _ canonical ?_
  rwa [firstValue, secondValue, div_eq_mul_inv, ← zpow_natCast, ← zpow_neg]

theorem mul_ofNat_eq (ample : Ample spec) {whole power : Nat} {ten : UnpackedFloat}
    (lt : whole < 2 ^ spec.mantissaBits) (checked : isPowerOfTen spec power ten = true)
    (canonical : Canonical spec mantissa exponent)
    (rounds : RoundsTo spec (whole * 10 ^ (power : Int)) mantissa exponent) :
    UnpackedFloat.mul spec (unpack spec (pack spec (ofNat spec whole))) ten =
      .finite .positive mantissa exponent canonical.pos := by
  have pos := rounds.digits_pos canonical
  obtain ⟨first, low, firstPos, unpacked, firstValue, firstFull⟩ := unpack_ofNat ample pos lt
  obtain ⟨second, scale, secondPos, rfl, secondValue, secondFull⟩ := finite_of_isPowerOfTen checked
  have full : 2 ^ (spec.mantissaBits - 1) ≤ first * second :=
    calc 2 ^ (spec.mantissaBits - 1)
        ≤ 2 ^ (spec.mantissaBits - 1) * 2 ^ (spec.mantissaBits - 1) :=
          Nat.le_mul_of_pos_right _ (Nat.two_pow_pos _)
      _ ≤ first * second := Nat.mul_le_mul firstFull secondFull
  rw [unpacked]
  refine mul_eq _ _ (le_targetExponent_of_full full) canonical ?_
  rwa [firstValue, secondValue, ← zpow_natCast]

/-- Few digits and a power of ten, which are numbers of the format, are divided or
multiplied in the format. -/
theorem scale_ofNat_eq (ample : Ample spec) {digits : Nat} {power : Int} {ten : UnpackedFloat}
    (lt : digits < 2 ^ spec.mantissaBits) (checked : isPowerOfTen spec power.natAbs ten = true)
    (canonical : Canonical spec mantissa exponent)
    (rounds : RoundsTo spec (digits * 10 ^ power) mantissa exponent) :
    (if decide (power < 0) = true then
        UnpackedFloat.div spec (unpack spec (pack spec (ofNat spec digits))) ten
      else UnpackedFloat.mul spec (unpack spec (pack spec (ofNat spec digits))) ten) =
      .finite .positive mantissa exponent canonical.pos := by
  split
  next negative =>
    rw [decide_eq_true_eq] at negative
    have sign : -(power.natAbs : Int) = power := by omega
    exact div_ofNat_eq ample lt checked canonical (by rwa [sign])
  next nonneg =>
    rw [decide_eq_true_eq] at nonneg
    have sign : (power.natAbs : Int) = power := by omega
    exact mul_ofNat_eq ample lt checked canonical (by rwa [sign])

theorem scale_zero {power : Nat} {ten : UnpackedFloat} (checked : isPowerOfTen spec power ten = true)
    (negative : Bool) :
    (if negative = true then UnpackedFloat.div spec (.zero .positive) ten
      else UnpackedFloat.mul spec (.zero .positive) ten) = .zero .positive := by
  obtain ⟨mantissa, exponent, pos, rfl, -⟩ := finite_of_isPowerOfTen checked
  cases negative <;> rfl

theorem ite_negOfNat (power : Int) :
    (if decide (power < 0) = true then Int.negOfNat power.natAbs
      else Int.ofNat power.natAbs) = power := by
  simp only [decide_eq_true_eq, Int.negOfNat_eq, Int.ofNat_eq_natCast]
  split <;> omega

end Worksheet.Binary
