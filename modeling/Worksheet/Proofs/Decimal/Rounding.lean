import Mathlib

/-!
# Rounding to a binary format

The rationals that round to a binary number are those within half a unit of its last
place, with ties going to even mantissas.  Whatever is known of a value when its
mantissa is cut off, rounding finds the number to which it rounds.
-/

namespace Worksheet.Binary

open Float.Model Float.Model.UnpackedFloat

/-- The value lies behind a whole number as told. -/
def Describes (whole : Nat) (value : ℚ) : Accuracy → Prop
  | .exact => value = whole
  | .inexact .lt => whole < value ∧ value < whole + 1 / 2
  | .inexact .eq => value = whole + 1 / 2
  | .inexact .gt => whole + 1 / 2 < value ∧ value < whole + 1

/-- The whole number is the nearest one to the value, or the even one of two. -/
def Nearest (value : ℚ) (whole : Nat) : Prop :=
  (whole - 1 / 2 ≤ value ∧ value ≤ whole + 1 / 2) ∧
    (whole % 2 = 1 → value ≠ whole - 1 / 2 ∧ value ≠ whole + 1 / 2)

theorem Describes.bounds {whole : Nat} {value : ℚ} {accuracy : Accuracy}
    (described : Describes whole value accuracy) : whole ≤ value ∧ value < whole + 1 := by
  rcases accuracy with _ | _ | _ | _ <;> simp only [Describes] at described <;>
    constructor <;> linarith

theorem roundToNearestEven_eq {whole target : Nat} {value : ℚ} {accuracy : Accuracy}
    (described : Describes whole value accuracy) (nearest : Nearest value target) :
    accuracy.roundToNearestEven whole = target := by
  obtain ⟨⟨least, greatest⟩, ties⟩ := nearest
  rcases accuracy with _ | order
  · have below : (target : ℚ) < whole + 1 := by rw [Describes] at described; linarith
    have above : (whole : ℚ) < target + 1 := by rw [Describes] at described; linarith
    norm_cast at below above
    rw [Accuracy.roundToNearestEven]
    omega
  · cases order with
    | lt =>
        obtain ⟨least', greatest'⟩ := described
        have below : (target : ℚ) < whole + 1 := by linarith
        have above : (whole : ℚ) < target + 1 := by linarith
        norm_cast at below above
        rw [Accuracy.roundToNearestEven]
        omega
    | eq =>
        rw [Describes] at described
        have below : (target : ℚ) ≤ whole + 1 := by linarith
        have above : (whole : ℚ) ≤ target := by linarith
        norm_cast at below above
        -- The value is half way between two numbers, and the target is the even one.
        have even : target % 2 = 0 := by
          by_contra odd
          obtain ⟨notLeast, notGreatest⟩ := ties (by omega)
          have cases' : target = whole ∨ target = whole + 1 := by omega
          rcases cases' with rfl | rfl
          · exact notGreatest described
          · apply notLeast
            push_cast
            linarith
        rw [Accuracy.roundToNearestEven]
        omega
    | gt =>
        obtain ⟨least', greatest'⟩ := described
        have below : (target : ℚ) < whole + 2 := by linarith
        have above : (whole : ℚ) < target := by linarith
        norm_cast at below above
        rw [Accuracy.roundToNearestEven]
        omega

/-! ### Cutting a mantissa off -/

theorem accuracy_ofMantissaAndAccuracy (mantissa : Nat) (accuracy : Accuracy) :
    (ExtendedMantissa.ofMantissaAndAccuracy mantissa accuracy).mantissa = mantissa ∧
      (ExtendedMantissa.ofMantissaAndAccuracy mantissa accuracy).accuracy = accuracy := by
  rcases accuracy with _ | _ | _ | _ <;> exact ⟨rfl, rfl⟩

theorem Describes.shiftRightOne {extended : ExtendedMantissa} {value : ℚ}
    (described : Describes extended.mantissa value extended.accuracy) :
    Describes extended.shiftRightOne.mantissa (value / 2) extended.shiftRightOne.accuracy := by
  obtain ⟨mantissa, roundBit, stickyBit⟩ := extended
  have split : (mantissa : ℚ) = 2 * (mantissa / 2 : Nat) + (mantissa % 2 : Nat) := by
    have := Nat.div_add_mod mantissa 2
    exact_mod_cast this.symm
  rcases Nat.mod_two_eq_zero_or_one mantissa with even | odd
  · rw [even] at split
    cases roundBit <;> cases stickyBit <;>
      simp only [ExtendedMantissa.accuracy, Describes, ExtendedMantissa.shiftRightOne, even,
        Bool.or_false, Bool.or_true, bne_self_eq_false] at described ⊢ <;>
      push_cast at split <;> first | linarith | constructor <;> linarith
  · rw [odd] at split
    have bit : (1 != 0) = true := rfl
    cases roundBit <;> cases stickyBit <;>
      simp only [ExtendedMantissa.accuracy, Describes, ExtendedMantissa.shiftRightOne, odd,
        Bool.or_false, Bool.or_true, bit] at described ⊢ <;>
      push_cast at split <;> first | linarith | constructor <;> linarith

theorem Describes.shiftRight {extended : ExtendedMantissa} {value : ℚ}
    (described : Describes extended.mantissa value extended.accuracy) (count : Nat) :
    Describes (extended >>> count).mantissa (value / 2 ^ count) (extended >>> count).accuracy := by
  change Describes (count.repeat ExtendedMantissa.shiftRightOne extended).mantissa _
    (count.repeat ExtendedMantissa.shiftRightOne extended).accuracy
  induction count with
  | zero => simpa [Nat.repeat] using described
  | succ count inductionHypothesis =>
      rw [Nat.repeat, pow_succ, ← div_div]
      exact inductionHypothesis.shiftRightOne

/-! ### Rounding -/

/-- A binary number as it is stored: with as many bits as fit, unless it is one of the
smallest ones. -/
structure Canonical (spec : Float.Model.Format) (mantissa : Nat) (exponent : Int) : Prop where
  pos : 0 < mantissa
  lt : mantissa < 2 ^ spec.mantissaBits
  minExponent_le : spec.minExponent ≤ exponent
  normal : exponent = spec.minExponent ∨ 2 ^ (spec.mantissaBits - 1) ≤ mantissa

/-- The value rounds to the number. -/
structure RoundsTo (spec : Float.Model.Format) (value : ℚ) (mantissa : Nat) (exponent : Int) :
    Prop where
  nearest : Nearest (value / 2 ^ exponent) mantissa
  /-- The neighbour below a power of two is only half as far away. -/
  narrow : spec.minExponent < exponent → mantissa = 2 ^ (spec.mantissaBits - 1) →
    mantissa - 1 / 4 ≤ value / 2 ^ exponent

variable {spec : Float.Model.Format}

theorem two_le_mantissaBits (spec : Float.Model.Format) : 2 ≤ spec.mantissaBits := by
  have := spec.hm
  rw [Float.Model.Format.mantissaBits]
  omega

theorem shiftToExponent_of_le {mantissa : Nat} {exponent target : Int} {accuracy : Accuracy}
    {value : ℚ} (described : Describes mantissa (value / 2 ^ exponent) accuracy)
    (le : exponent ≤ target) :
    (shiftToExponent mantissa exponent accuracy target).2 = target ∧
      Describes (shiftToExponent mantissa exponent accuracy target).1.mantissa (value / 2 ^ target)
        (shiftToExponent mantissa exponent accuracy target).1.accuracy := by
  constructor
  · rw [shiftToExponent]
    dsimp only
    omega
  · have start : Describes
        (ExtendedMantissa.ofMantissaAndAccuracy mantissa accuracy).mantissa (value / 2 ^ exponent)
        (ExtendedMantissa.ofMantissaAndAccuracy mantissa accuracy).accuracy := by
      rw [(accuracy_ofMantissaAndAccuracy mantissa accuracy).1,
        (accuracy_ofMantissaAndAccuracy mantissa accuracy).2]
      exact described
    have shifted := start.shiftRight (target - exponent).toNat
    have same : value / 2 ^ exponent / 2 ^ (target - exponent).toNat = value / 2 ^ target := by
      rw [div_div, ← zpow_natCast, ← zpow_add₀ (by norm_num)]
      congr 2
      omega
    rwa [same] at shifted

theorem le_targetExponent_of_full {mantissa : Nat} {exponent : Int}
    (full : 2 ^ (spec.mantissaBits - 1) ≤ mantissa) :
    exponent ≤ spec.targetExponent (totalExponent mantissa exponent) := by
  have bits := two_le_mantissaBits spec
  have pos : mantissa ≠ 0 := ((Nat.two_pow_pos _).trans_le full).ne'
  have log := (Nat.le_log2 pos).mpr full
  rw [Float.Model.Format.targetExponent, totalExponent]
  omega

theorem shiftToTargetExponent_exact {mantissa : Nat} {exponent : Int}
    (lt : mantissa < 2 ^ spec.mantissaBits) (pos : 0 < mantissa)
    (le : spec.minExponent ≤ exponent) :
    (shiftToTargetExponent spec mantissa exponent .exact).1.mantissa = mantissa ∧
      (shiftToTargetExponent spec mantissa exponent .exact).2 = exponent := by
  have bits : mantissa.log2 < spec.mantissaBits := (Nat.log2_lt (by omega)).mpr lt
  have target : spec.targetExponent (totalExponent mantissa exponent) ≤ exponent := by
    rw [Float.Model.Format.targetExponent, totalExponent]
    omega
  rw [shiftToTargetExponent, shiftToExponent, Int.toNat_of_nonpos (by omega)]
  exact ⟨rfl, Int.add_zero exponent⟩

/-- A mantissa that has been rounded up to one bit more is shifted back. -/
theorem shiftToTargetExponent_overflow {exponent : Int}
    (le : spec.minExponent ≤ exponent) :
    (shiftToTargetExponent spec (2 ^ spec.mantissaBits) exponent .exact).1.mantissa =
        2 ^ (spec.mantissaBits - 1) ∧
      (shiftToTargetExponent spec (2 ^ spec.mantissaBits) exponent .exact).2 = exponent + 1 := by
  have bits := two_le_mantissaBits spec
  have target : spec.targetExponent (totalExponent (2 ^ spec.mantissaBits) exponent) =
      exponent + 1 := by
    rw [Float.Model.Format.targetExponent, totalExponent, Nat.log2_two_pow]
    omega
  rw [shiftToTargetExponent, target, shiftToExponent,
    show (exponent + 1 - exponent).toNat = 1 by omega]
  refine ⟨?_, rfl⟩
  change 2 ^ spec.mantissaBits / 2 = 2 ^ (spec.mantissaBits - 1)
  rw [← Nat.pow_div (by omega) (by norm_num), pow_one]

/-- The value has no more bits than fit above the target, and no fewer unless the
target is the least one. -/
theorem target_bounds {mantissa : Nat} {exponent : Int} {accuracy : Accuracy}
    {value : ℚ} (described : Describes mantissa (value / 2 ^ exponent) accuracy)
    (le : exponent ≤ spec.targetExponent (totalExponent mantissa exponent)) :
    let target := spec.targetExponent (totalExponent mantissa exponent)
    spec.minExponent ≤ target ∧ value < 2 ^ (target + spec.mantissaBits) ∧
      (target = spec.minExponent ∨ 2 ^ (target + spec.mantissaBits - 1) ≤ value) := by
  intro target
  have bits := two_le_mantissaBits spec
  have scale : (0 : ℚ) < 2 ^ exponent := by positivity
  obtain ⟨low, high⟩ := described.bounds
  rw [le_div_iff₀ scale] at low
  rw [div_lt_iff₀ scale] at high
  refine ⟨by simp only [target, Float.Model.Format.targetExponent]; omega, ?_, ?_⟩
  · have whole : (mantissa : ℚ) + 1 ≤ 2 ^ (mantissa.log2 + 1) := by
      exact_mod_cast Nat.lt_log2_self
    calc value < (mantissa + 1) * 2 ^ exponent := high
      _ ≤ 2 ^ (mantissa.log2 + 1) * 2 ^ exponent := by gcongr
      _ = 2 ^ ((mantissa.log2 : Int) + 1 + exponent) := by
          rw [← zpow_natCast, ← zpow_add₀ (by norm_num)]
          push_cast
          rfl
      _ ≤ 2 ^ (target + spec.mantissaBits) := by
          refine zpow_le_zpow_right₀ (by norm_num) ?_
          simp only [target, Float.Model.Format.targetExponent, totalExponent]
          omega
  -- The highest bit of the mantissa decides unless there is none or the exponent is least.
  · by_cases empty : mantissa = 0
    · left
      rw [empty] at le
      simp only [target, empty, Float.Model.Format.targetExponent, totalExponent,
        Nat.log2_zero] at le ⊢
      omega
    · by_cases least : target = spec.minExponent
      · exact .inl least
      · right
        have exact : target = mantissa.log2 + 1 + exponent - spec.mantissaBits := by
          simp only [target, Float.Model.Format.targetExponent, totalExponent] at least ⊢
          omega
        have whole : (2 : ℚ) ^ mantissa.log2 ≤ mantissa := by
          exact_mod_cast Nat.log2_self_le empty
        calc (2 : ℚ) ^ (target + spec.mantissaBits - 1)
            = 2 ^ mantissa.log2 * 2 ^ exponent := by
              rw [exact, ← zpow_natCast, ← zpow_add₀ (by norm_num)]
              congr 1
              ring
          _ ≤ mantissa * 2 ^ exponent := by gcongr
          _ ≤ value := low

section Cut

variable {value : ℚ} {mantissa : Nat} {exponent target : Int}

theorem RoundsTo.upper (rounds : RoundsTo spec value mantissa exponent)
    (canonical : Canonical spec mantissa exponent) :
    value < 2 ^ (spec.mantissaBits + exponent) := by
  have scale : (0 : ℚ) < 2 ^ exponent := by positivity
  have top : (mantissa : ℚ) + 1 ≤ 2 ^ spec.mantissaBits := by exact_mod_cast canonical.lt
  have high := rounds.nearest.1.2
  rw [div_le_iff₀ scale] at high
  calc value ≤ (mantissa + 1 / 2) * 2 ^ exponent := high
    _ < 2 ^ spec.mantissaBits * 2 ^ exponent := by gcongr; linarith
    _ = 2 ^ (spec.mantissaBits + exponent) := by rw [zpow_add₀ (by norm_num), zpow_natCast]

theorem RoundsTo.le_exponent (rounds : RoundsTo spec value mantissa exponent)
    (canonical : Canonical spec mantissa exponent)
    (filled : target = spec.minExponent ∨ 2 ^ (target + spec.mantissaBits - 1) ≤ value) :
    target ≤ exponent := by
  rcases filled with rfl | long
  · exact canonical.minExponent_le
  · have less := (zpow_lt_zpow_iff_right₀ (by norm_num)).mp
      (long.trans_lt (rounds.upper canonical))
    omega

theorem two_pow_mantissaBits (spec : Float.Model.Format) :
    2 ^ spec.mantissaBits = 2 ^ (spec.mantissaBits - 1) * 2 := by
  have bits := two_le_mantissaBits spec
  rw [← pow_succ]
  congr 1
  omega

/-- A number that ends above the place where its value is cut off is a power of two, and
it ends at the next place. -/
theorem RoundsTo.eq_of_lt (rounds : RoundsTo spec value mantissa exponent)
    (canonical : Canonical spec mantissa exponent) (least : spec.minExponent ≤ target)
    (below : value < 2 ^ (target + spec.mantissaBits)) (less : target < exponent) :
    exponent = target + 1 ∧ mantissa = 2 ^ (spec.mantissaBits - 1) := by
  have bits := two_le_mantissaBits spec
  have scale : (0 : ℚ) < 2 ^ exponent := by positivity
  have full : 2 ^ (spec.mantissaBits - 1) ≤ mantissa := by
    rcases canonical.normal with smallest | full
    · omega
    · exact full
  have quotient : value / 2 ^ exponent < 2 ^ (target + spec.mantissaBits - exponent) := by
    rw [div_lt_iff₀ scale, ← zpow_add₀ (by norm_num), sub_add_cancel]
    exact below
  have bound (count : Nat) (le : target + spec.mantissaBits - exponent ≤ count) :
      value / 2 ^ exponent < 2 ^ count := by
    refine quotient.trans_le ?_
    rw [← zpow_natCast]
    exact zpow_le_zpow_right₀ (by norm_num) le
  have low := rounds.nearest.1.1
  have whole : (2 : ℚ) ^ (spec.mantissaBits - 1) ≤ mantissa := by exact_mod_cast full
  constructor
  · by_contra apart
    have quarter := bound (spec.mantissaBits - 2) (by omega)
    have double : (2 : ℚ) ^ (spec.mantissaBits - 1) = 2 ^ (spec.mantissaBits - 2) * 2 := by
      rw [← pow_succ]
      congr 1
      omega
    have one : (1 : ℚ) ≤ 2 ^ (spec.mantissaBits - 2) := one_le_pow₀ (by norm_num)
    linarith
  · have half := bound (spec.mantissaBits - 1) (by omega)
    have above : (mantissa : ℚ) < 2 ^ (spec.mantissaBits - 1) + 1 := by linarith
    norm_cast at above
    omega

/-- One place below, the value is next to a mantissa that is too large by one bit. -/
theorem RoundsTo.nearest_below (rounds : RoundsTo spec value mantissa exponent)
    (least : spec.minExponent ≤ target) (below : value < 2 ^ (target + spec.mantissaBits))
    (next : exponent = target + 1) (equal : mantissa = 2 ^ (spec.mantissaBits - 1)) :
    Nearest (value / 2 ^ target) (2 ^ spec.mantissaBits) := by
  have whole : (mantissa : ℚ) = 2 ^ (spec.mantissaBits - 1) := by exact_mod_cast equal
  have double : (2 : ℚ) ^ spec.mantissaBits = 2 ^ (spec.mantissaBits - 1) * 2 := by
    exact_mod_cast two_pow_mantissaBits spec
  have twice : value / 2 ^ target = 2 * (value / 2 ^ exponent) := by
    rw [next, zpow_add₀ (by norm_num), zpow_one]
    field_simp
  have near := rounds.narrow (by omega) equal
  have under : value / 2 ^ target < 2 ^ spec.mantissaBits := by
    rw [div_lt_iff₀ (by positivity), ← zpow_natCast, ← zpow_add₀ (by norm_num), add_comm]
    exact below
  refine ⟨⟨?_, ?_⟩, ?_⟩
  · push_cast
    linarith
  · push_cast
    linarith
  · intro odd
    rw [two_pow_mantissaBits, Nat.mul_mod_left] at odd
    cases odd

/-- The mantissa is cut off where the number to which the value rounds ends, or one
place below if the value is just below a power of two. -/
theorem RoundsTo.cut (rounds : RoundsTo spec value mantissa exponent)
    (canonical : Canonical spec mantissa exponent) (least : spec.minExponent ≤ target)
    (below : value < 2 ^ (target + spec.mantissaBits))
    (filled : target = spec.minExponent ∨ 2 ^ (target + spec.mantissaBits - 1) ≤ value) :
    target = exponent ∨ exponent = target + 1 ∧ mantissa = 2 ^ (spec.mantissaBits - 1) ∧
      Nearest (value / 2 ^ target) (2 ^ spec.mantissaBits) := by
  rcases (rounds.le_exponent canonical filled).eq_or_lt with same | less
  · exact .inl same
  · right
    obtain ⟨next, equal⟩ := rounds.eq_of_lt canonical least below less
    exact ⟨next, equal, rounds.nearest_below least below next equal⟩

end Cut

/-- A value is rounded to the number to which it rounds. -/
theorem roundWithAccuracy_eq (sign : Sign) {whole mantissa : Nat}
    {low exponent : Int} {accuracy : Accuracy} {value : ℚ}
    (described : Describes whole (value / 2 ^ low) accuracy)
    (le : low ≤ spec.targetExponent (totalExponent whole low))
    (canonical : Canonical spec mantissa exponent)
    (rounds : RoundsTo spec value mantissa exponent) :
    roundWithAccuracy spec sign whole low accuracy =
      .finite sign mantissa exponent canonical.pos := by
  obtain ⟨least, below, filled⟩ := target_bounds described le
  obtain ⟨place, cut⟩ := shiftToExponent_of_le described le
  change (shiftToTargetExponent spec whole low accuracy).2 = _ at place
  change Describes (shiftToTargetExponent spec whole low accuracy).1.mantissa _
    (shiftToTargetExponent spec whole low accuracy).1.accuracy at cut
  have final : (shiftToTargetExponent spec
        (shiftToTargetExponent spec whole low accuracy).1.roundedMantissa
        (shiftToTargetExponent spec whole low accuracy).2 .exact).1.mantissa = mantissa ∧
      (shiftToTargetExponent spec
        (shiftToTargetExponent spec whole low accuracy).1.roundedMantissa
        (shiftToTargetExponent spec whole low accuracy).2 .exact).2 = exponent := by
    rw [place, ExtendedMantissa.roundedMantissa]
    rcases rounds.cut canonical least below filled with same | ⟨next, top, nearest⟩
    · rw [same] at cut ⊢
      rw [roundToNearestEven_eq cut rounds.nearest]
      exact shiftToTargetExponent_exact canonical.lt canonical.pos canonical.minExponent_le
    · rw [roundToNearestEven_eq cut nearest, top, next]
      exact shiftToTargetExponent_overflow least
  rw [roundWithAccuracy]
  dsimp only
  rw [dif_neg (by rw [final.1]; exact canonical.pos.ne')]
  simp only [final]

/-! ### Products and quotients -/

theorem mul_eq {first second mantissa : Nat} {firstExponent secondExponent : Int}
    {exponent : Int} (firstPos : 0 < first) (secondPos : 0 < second)
    (le : firstExponent + secondExponent ≤
      spec.targetExponent (totalExponent (first * second) (firstExponent + secondExponent)))
    (canonical : Canonical spec mantissa exponent)
    (rounds : RoundsTo spec (first * 2 ^ firstExponent * (second * 2 ^ secondExponent))
      mantissa exponent) :
    UnpackedFloat.mul spec (.finite .positive first firstExponent firstPos)
        (.finite .positive second secondExponent secondPos) =
      .finite .positive mantissa exponent canonical.pos := by
  refine roundWithAccuracy_eq .positive ?_ le canonical rounds
  rw [Describes, zpow_add₀ (by norm_num)]
  push_cast
  field_simp

theorem describes_fraction (dividend : Nat) {divisor : Nat} (pos : 0 < divisor) :
    Describes (dividend / divisor) (dividend / divisor : ℚ)
      (accuracyOfFraction (dividend % divisor) divisor) := by
  have scale : (0 : ℚ) < divisor := by exact_mod_cast pos
  have split : (dividend : ℚ) / divisor =
      (dividend / divisor : Nat) + (dividend % divisor : Nat) / divisor := by
    rw [div_eq_iff scale.ne', add_mul, div_mul_cancel₀ _ scale.ne', mul_comm]
    exact_mod_cast (Nat.div_add_mod dividend divisor).symm
  have less : ((dividend % divisor : Nat) : ℚ) < divisor := by
    exact_mod_cast Nat.mod_lt dividend pos
  rw [split, accuracyOfFraction]
  split
  next zero =>
    rw [zero, Describes]
    simp
  next nonzero =>
    have positive : (0 : ℚ) < (dividend % divisor : Nat) := by
      exact_mod_cast Nat.pos_of_ne_zero nonzero
    cases order : compare (2 * (dividend % divisor)) divisor with
    | lt =>
        rw [Nat.compare_eq_lt] at order
        have half : 2 * ((dividend % divisor : Nat) : ℚ) < divisor := by exact_mod_cast order
        refine ⟨lt_add_of_pos_right _ (div_pos positive scale), ?_⟩
        rw [add_lt_add_iff_left, div_lt_iff₀ scale]
        linarith
    | eq =>
        rw [Nat.compare_eq_eq] at order
        have half : 2 * ((dividend % divisor : Nat) : ℚ) = divisor := by exact_mod_cast order
        rw [Describes, add_right_inj, div_eq_iff scale.ne']
        linarith
    | gt =>
        rw [Nat.compare_eq_gt] at order
        have half : (divisor : ℚ) < 2 * (dividend % divisor : Nat) := by exact_mod_cast order
        constructor
        · rw [add_lt_add_iff_left, lt_div_iff₀ scale]
          linarith
        · rw [add_lt_add_iff_left, div_lt_iff₀ scale, one_mul]
          exact less

/-- The quotient is taken to enough places for rounding. -/
theorem divCore_le {first second : Nat} {firstExponent secondExponent : Int}
    (firstPos : 0 < first) (secondPos : 0 < second) {quotient : Nat} {exponent : Int}
    {accuracy : Accuracy}
    (divided : divCore spec first firstExponent second secondExponent =
      (quotient, exponent, accuracy)) :
    exponent ≤ spec.targetExponent (totalExponent quotient exponent) := by
  have bits := two_le_mantissaBits spec
  rw [divCore] at divided
  obtain ⟨made, place, -⟩ : _ ∧ _ ∧ _ := by simpa only [Prod.mk.injEq] using divided
  rw [place] at made
  by_cases least : exponent ≤ spec.minExponent
  · rw [Float.Model.Format.targetExponent]
    omega
  · set shift := (firstExponent - secondExponent - exponent).toNat with shifted
    have bound : exponent ≤ first.log2 + 1 + firstExponent - (second.log2 + 1 + secondExponent) -
        spec.mantissaBits := by
      simp only [Float.Model.Format.targetExponent, totalExponent] at place
      omega
    have power : 2 ^ (first.log2 + shift - (second.log2 + 1)) ≤ quotient := by
      rw [← made, Nat.shiftLeft_eq, Nat.le_div_iff_mul_le secondPos]
      calc 2 ^ (first.log2 + shift - (second.log2 + 1)) * second
          ≤ 2 ^ (first.log2 + shift - (second.log2 + 1)) * 2 ^ (second.log2 + 1) :=
            Nat.mul_le_mul_left _ Nat.lt_log2_self.le
        _ = 2 ^ first.log2 * 2 ^ shift := by
            rw [← Nat.pow_add, ← Nat.pow_add]
            congr 1
            omega
        _ ≤ first * 2 ^ shift := Nat.mul_le_mul_right _ (Nat.log2_self_le firstPos.ne')
    apply le_targetExponent_of_full
    have reach : spec.mantissaBits - 1 ≤ first.log2 + shift - (second.log2 + 1) := by omega
    exact (Nat.pow_le_pow_right (by norm_num) reach).trans power

theorem div_eq {first second mantissa : Nat} {firstExponent secondExponent : Int}
    {exponent : Int} (firstPos : 0 < first) (secondPos : 0 < second)
    (canonical : Canonical spec mantissa exponent)
    (rounds : RoundsTo spec (first * 2 ^ firstExponent / (second * 2 ^ secondExponent))
      mantissa exponent) :
    UnpackedFloat.div spec (.finite .positive first firstExponent firstPos)
        (.finite .positive second secondExponent secondPos) =
      .finite .positive mantissa exponent canonical.pos := by
  rw [UnpackedFloat.div]
  dsimp only
  refine roundWithAccuracy_eq .positive ?_ (divCore_le firstPos secondPos rfl) canonical rounds
  rw [divCore]
  dsimp only
  set target := min (firstExponent - secondExponent)
    (spec.targetExponent (totalExponent first firstExponent - totalExponent second secondExponent))
  have described := describes_fraction (first <<< (firstExponent - secondExponent - target).toNat)
    secondPos
  have same : ((first <<< (firstExponent - secondExponent - target).toNat : Nat) : ℚ) / second =
      first * 2 ^ firstExponent / (second * 2 ^ secondExponent) / 2 ^ target := by
    have power : (2 : ℚ) ^ (firstExponent - secondExponent - target).toNat =
        2 ^ firstExponent / 2 ^ secondExponent / 2 ^ target := by
      rw [← zpow_natCast, ← zpow_sub₀ (by norm_num), ← zpow_sub₀ (by norm_num)]
      congr 1
      omega
    rw [Nat.shiftLeft_eq]
    push_cast
    rw [power]
    field_simp
  rwa [same] at described

end Worksheet.Binary
