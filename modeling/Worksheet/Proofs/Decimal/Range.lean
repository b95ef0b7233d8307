import Worksheet.Proofs.Decimal.Reading

/-!
# The range of a format

A value between the least normal number of a format and the end of its range rounds to a
number of the format.  In particular no whole number is too large for a format whose
exponents reach as far as the number has bits, even where its mantissa has fewer of them.
-/

namespace Worksheet.Binary

open Float.Model (UnpackedFloat)
open Float.Model.UnpackedFloat

variable {spec : Float.Model.Format} {value : ℚ}

/-! ### Numbers to round to -/

theorem exists_nearest (nonneg : 0 ≤ value) : ∃ whole, Nearest value whole := by
  have low : (⌊value⌋₊ : ℚ) ≤ value := Nat.floor_le nonneg
  have high : value < ⌊value⌋₊ + 1 := Nat.lt_floor_add_one value
  rcases lt_trichotomy value (⌊value⌋₊ + 1 / 2) with below | half | above
  · refine ⟨⌊value⌋₊, ⟨by linarith, below.le⟩, fun _ => ⟨?_, below.ne⟩⟩
    apply ne_of_gt
    linarith
  · rcases Nat.mod_two_eq_zero_or_one ⌊value⌋₊ with even | odd
    · exact ⟨⌊value⌋₊, ⟨by linarith, half.le⟩, fun odd => by omega⟩
    · refine ⟨⌊value⌋₊ + 1, ⟨?_, ?_⟩, fun odd => by omega⟩
      all_goals
        push_cast
        linarith
  · refine ⟨⌊value⌋₊ + 1, ⟨?_, ?_⟩, fun _ => ⟨?_, ?_⟩⟩
    · push_cast
      linarith
    · push_cast
      linarith
    · apply ne_of_gt
      push_cast
      linarith
    · apply ne_of_lt
      push_cast
      linarith

/-- A value of as many bits as the mantissa has, counted from the target, rounds to a number
that ends at the target, or at the next place if the value is rounded up to a power of
two. -/
theorem exists_roundsTo {target : Int} (least : spec.minExponent ≤ target)
    (low : 2 ^ (spec.mantissaBits - 1) ≤ value / 2 ^ target)
    (high : value / 2 ^ target < 2 ^ spec.mantissaBits) :
    ∃ mantissa exponent, Canonical spec mantissa exponent ∧
      RoundsTo spec value mantissa exponent ∧ exponent ≤ target + 1 := by
  have positive : (0 : ℚ) ≤ 2 ^ (spec.mantissaBits - 1) := by positivity
  obtain ⟨whole, nearest⟩ := exists_nearest (positive.trans low)
  have ⟨above, below⟩ := nearest.1
  have full : 2 ^ (spec.mantissaBits - 1) ≤ whole := by
    have less : (2 : ℚ) ^ (spec.mantissaBits - 1) < whole + 1 := by linarith
    norm_cast at less
    omega
  have bound : whole ≤ 2 ^ spec.mantissaBits := by
    have less : (whole : ℚ) < 2 ^ spec.mantissaBits + 1 := by linarith
    norm_cast at less
    omega
  have double := two_pow_mantissaBits spec
  rcases bound.lt_or_eq with fits | carried
  · refine ⟨whole, target, ⟨(Nat.two_pow_pos _).trans_le full, fits, least, .inr full⟩,
      ⟨nearest, fun _ same => ?_⟩, by omega⟩
    have equal : (whole : ℚ) = 2 ^ (spec.mantissaBits - 1) := by exact_mod_cast same
    linarith
  · -- Rounding up has taken one bit more, so that the number ends one place higher.
    have half : value / 2 ^ (target + 1) = value / 2 ^ target / 2 := by
      rw [zpow_add_one₀ (by norm_num), div_div]
    have equal : (whole : ℚ) = ((2 ^ (spec.mantissaBits - 1) : Nat) : ℚ) * 2 := by
      exact_mod_cast carried.trans double
    have top : (2 : ℚ) ^ spec.mantissaBits = ((2 ^ (spec.mantissaBits - 1) : Nat) : ℚ) * 2 := by
      exact_mod_cast double
    refine ⟨2 ^ (spec.mantissaBits - 1), target + 1,
      ⟨Nat.two_pow_pos _, ?_, by omega, .inr le_rfl⟩, ⟨⟨⟨?_, ?_⟩, fun _ => ⟨?_, ?_⟩⟩,
      fun _ _ => ?_⟩, le_rfl⟩
    · rw [double]
      have one : 0 < 2 ^ (spec.mantissaBits - 1) := Nat.two_pow_pos _
      omega
    · linarith
    · linarith
    · apply ne_of_gt
      linarith
    · apply ne_of_lt
      linarith
    · linarith

/-! ### Whole numbers -/

theorem exists_roundsTo_whole (ample : Ample spec) {whole : Nat} (pos : 0 < whole)
    (bound : whole < 2 ^ spec.exponentBias) :
    ∃ mantissa exponent, Canonical spec mantissa exponent ∧ Fits spec exponent ∧
      RoundsTo spec whole mantissa exponent := by
  have bits := two_le_mantissaBits spec
  have size := (Nat.log2_lt pos.ne').mpr bound
  obtain ⟨-, least⟩ := minExponent_of_ample ample
  set target : Int := whole.log2 + 1 - spec.mantissaBits with placed
  have scale : (0 : ℚ) < 2 ^ target := by positivity
  have low : (2 : ℚ) ^ (spec.mantissaBits - 1) ≤ whole / 2 ^ target := by
    rw [le_div_iff₀ scale, ← zpow_natCast, ← zpow_add₀ (by norm_num),
      show ((spec.mantissaBits - 1 : Nat) : Int) + target = whole.log2 by omega, zpow_natCast]
    exact_mod_cast Nat.log2_self_le pos.ne'
  have high : (whole : ℚ) / 2 ^ target < 2 ^ spec.mantissaBits := by
    rw [div_lt_iff₀ scale, ← zpow_natCast, ← zpow_add₀ (by norm_num),
      show (spec.mantissaBits : Int) + target = (whole.log2 + 1 : Nat) by omega, zpow_natCast]
    exact_mod_cast Nat.lt_log2_self
  obtain ⟨mantissa, exponent, canonical, rounds, place⟩ :=
    exists_roundsTo (by omega) low high
  refine ⟨mantissa, exponent, canonical, ?_, rounds⟩
  have wide := two_pow_exponentBits ample
  have bias := exponentBias_eq spec
  have implicit := mantissaBits_sub_one spec
  rw [Fits, wide]
  omega

end Worksheet.Binary
