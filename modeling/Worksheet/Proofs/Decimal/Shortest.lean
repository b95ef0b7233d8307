import Worksheet.Decimal.Shortest
import Worksheet.Proofs.Decimal.Layout
import Worksheet.Proofs.Decimal.Packing

/-!
# Shortest decimals round back

The decimal chosen for a binary number lies in the band of the values that round to
the number.
-/

namespace Worksheet.Decimal

open Binary

namespace Band

/-- The value is between the ends of the band. -/
def Contains (band : Band) (value : ℚ) : Prop :=
  (band.low ≤ value * band.unit ∧ value * band.unit ≤ band.high) ∧
    (band.closed = false → value * band.unit ≠ band.low ∧ value * band.unit ≠ band.high)

theorem contains_of_admits {band : Band} {digits : Nat} {exponent : Int}
    (admitted : band.admits (Nat.pow 10 (-exponent).toNat)
      (digits * (band.unit * Nat.pow 10 exponent.toNat)) = true) :
    band.Contains (Decimal.value ⟨digits, exponent⟩) := by
  have scale : (0 : ℚ) < 10 ^ (-exponent).toNat := by positivity
  have power : (10 : ℚ) ^ exponent = 10 ^ exponent.toNat / 10 ^ (-exponent).toNat := by
    rw [← zpow_natCast, ← zpow_natCast, ← zpow_sub₀ (by norm_num)]
    congr 1
    omega
  have point : Decimal.value ⟨digits, exponent⟩ * band.unit =
      (digits * (band.unit * 10 ^ exponent.toNat) : Nat) / 10 ^ (-exponent).toNat := by
    rw [Decimal.value, power]
    push_cast
    ring
  have below : (band.low : ℚ) * 10 ^ (-exponent).toNat =
      (band.low * 10 ^ (-exponent).toNat : Nat) := by push_cast; rfl
  have above : (band.high : ℚ) * 10 ^ (-exponent).toNat =
      (band.high * 10 ^ (-exponent).toNat : Nat) := by push_cast; rfl
  simp only [Contains, ne_eq, point, le_div_iff₀ scale, div_le_iff₀ scale, div_eq_iff scale.ne',
    below, above, Nat.cast_le, Nat.cast_inj]
  simp only [admits, Nat.pow_eq] at admitted
  split at admitted
  next closed =>
    simp only [Bool.and_eq_true, decide_eq_true_eq] at admitted
    exact ⟨admitted, fun opened => absurd closed (by rw [opened]; decide)⟩
  next =>
    simp only [Bool.and_eq_true, decide_eq_true_eq] at admitted
    omega

theorem contains_of_onGrid? {band : Band} {exponent : Int} {number : Decimal}
    (found : band.onGrid? exponent = some number) : band.Contains number.value := by
  simp only [onGrid?] at found
  split at found
  next lower upper =>
    cases found
    split
    next => exact contains_of_admits lower
    next =>
      refine contains_of_admits ?_
      rwa [Nat.add_mul, Nat.one_mul]
  next lower _ =>
    cases found
    exact contains_of_admits lower
  next _ upper =>
    cases found
    refine contains_of_admits ?_
    rwa [Nat.add_mul, Nat.one_mul]
  next => cases found

theorem contains_exact {band : Band} {count : Nat} (unit : band.unit = 2 ^ count)
    (low : band.low < band.value) (high : band.value < band.high) :
    band.Contains band.exact.value := by
  have same : band.exact.value * band.unit = band.value := by
    rw [Decimal.value, exact, unit, Nat.log2_two_pow, zpow_neg, zpow_natCast, Nat.pow_eq,
      show (10 : ℚ) = 2 * 5 by norm_num, mul_pow]
    push_cast
    field_simp
  simp only [Contains, same, Nat.cast_le, ne_eq, Nat.cast_inj]
  omega

theorem contains_shortest {band : Band} {count : Nat} (unit : band.unit = 2 ^ count)
    (low : band.low < band.value) (high : band.value < band.high) :
    band.Contains band.shortest.value := by
  rw [shortest]
  cases found : ((List.range 18).map fun (count : Nat) => band.ceilingExponent - count).findSome?
      band.onGrid? with
  | none => exact contains_exact unit low high
  | some number =>
      obtain ⟨exponent, -, hit⟩ := List.exists_of_findSome?_eq_some found
      exact contains_of_onGrid? hit

end Band

/-- The band of a number, in quarters of a unit of its last place. -/
theorem quarters_of_contains {number : Scaled} {value : ℚ} (pos : 0 < number.mantissa)
    (contained : (Band.around number).Contains value) :
    let quarters := value / 2 ^ number.exponent * 4
    let reach : ℚ := if number.narrowBelow then 1 else 2
    (4 * number.mantissa - reach ≤ quarters ∧ quarters ≤ 4 * number.mantissa + 2) ∧
      (number.mantissa % 2 = 1 →
        quarters ≠ 4 * number.mantissa - reach ∧ quarters ≠ 4 * number.mantissa + 2) := by
  intro quarters reach
  obtain ⟨⟨low, high⟩, ends⟩ := contained
  simp only [Band.around, Nat.pow_eq, decide_eq_false_iff_not] at low high ends
  have scale : (0 : ℚ) < 2 ^ (number.exponent - 2).toNat := by positivity
  have unit : (0 : ℚ) < 2 ^ (2 - number.exponent).toNat := by positivity
  have power : (2 : ℚ) ^ number.exponent =
      4 * 2 ^ (number.exponent - 2).toNat / 2 ^ (2 - number.exponent).toNat := by
    rw [show (4 : ℚ) = 2 ^ (2 : Int) by norm_num, ← zpow_natCast, ← zpow_natCast,
      ← zpow_add₀ (by norm_num), ← zpow_sub₀ (by norm_num)]
    congr 1
    omega
  have value_eq : value * 2 ^ (2 - number.exponent).toNat =
      quarters * 2 ^ (number.exponent - 2).toNat := by
    simp only [quarters, power]
    field_simp
  have lowest : ((4 * number.mantissa - if number.narrowBelow then 1 else 2 : Nat) : ℚ) =
      4 * number.mantissa - reach := by
    rw [Nat.cast_sub (by split <;> omega)]
    push_cast
    rfl
  rw [Nat.cast_mul, lowest] at low ends
  push_cast at low high ends
  rw [value_eq, mul_le_mul_iff_left₀ scale] at low high
  rw [value_eq, ne_eq, ne_eq, mul_left_inj' scale.ne', mul_left_inj' scale.ne'] at ends
  exact ⟨⟨low, high⟩, fun odd => ends (by omega)⟩

/-- What lies in the band of a number rounds to the number. -/
theorem roundsTo_of_contains {spec : Float.Model.Format} {number : Scaled} {value : ℚ}
    (pos : 0 < number.mantissa)
    (narrow : spec.minExponent < number.exponent →
      number.mantissa = 2 ^ (spec.mantissaBits - 1) → number.narrowBelow = true)
    (contained : (Band.around number).Contains value) :
    RoundsTo spec value number.mantissa number.exponent := by
  obtain ⟨⟨low, high⟩, ends⟩ := quarters_of_contains pos contained
  have reach : (if number.narrowBelow then 1 else 2 : ℚ) ≤ 2 := by split <;> norm_num
  refine ⟨⟨⟨by linarith, by linarith⟩, fun odd => ?_⟩, fun above power => ?_⟩
  · obtain ⟨notLow, notHigh⟩ := ends odd
    refine ⟨fun tie => ?_, fun tie => notHigh (by linarith)⟩
    by_cases narrowed : number.narrowBelow = true
    · rw [if_pos narrowed] at low
      linarith
    · rw [if_neg narrowed] at notLow
      exact notLow (by linarith)
  · rw [if_pos (narrow above power)] at low
    linarith

theorem roundsTo_shortest {spec : Float.Model.Format} {bits : BitVec spec.numBits}
    {number : Scaled} (found : (Format.ofSpec spec).magnitude bits.toNat = .finite number) :
    RoundsTo spec (shortest number).value number.mantissa number.exponent := by
  have known : 0 < number.mantissa ∧ (spec.minExponent < number.exponent →
      number.mantissa = 2 ^ (spec.mantissaBits - 1) → number.narrowBelow = true) := by
    rw [magnitude_eq] at found
    split at found
    next => split at found <;> cases found
    next =>
      split at found
      next =>
        split at found
        next => cases found
        next filled =>
          cases found
          exact ⟨Nat.pos_of_ne_zero filled, fun above => absurd above (lt_irrefl _)⟩
      next =>
        cases found
        refine ⟨by positivity, fun above power => ?_⟩
        dsimp only at above power
        rw [mantissaBits_sub_one] at power
        rw [Bool.and_eq_true, decide_eq_true_eq, decide_eq_true_eq]
        omega
  refine roundsTo_of_contains known.1 known.2 ?_
  have scale : 0 < Nat.pow 2 (number.exponent - 2).toNat := Nat.two_pow_pos _
  have positive := known.1
  refine Band.contains_shortest rfl ?_ ?_
  · refine Nat.mul_lt_mul_of_pos_right ?_ scale
    split <;> omega
  · exact Nat.mul_lt_mul_of_pos_right (by omega) scale

end Worksheet.Decimal
