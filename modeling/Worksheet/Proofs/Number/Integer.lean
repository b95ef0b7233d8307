import Mathlib.Data.Rat.Floor
import Mathlib.Tactic.Positivity
import Worksheet.Number.Arithmetic

/-!
# Integers modulo a power of two

Every operator has an exact result among the rational numbers.  What is computed is that
result, truncated toward zero and reduced to 32 bits with a sign, unless the operator is a
division by zero, plain or in the form of a negative power of zero.
-/

namespace Worksheet

/-! ### Truncation -/

/-- The integer next to the number on the side of zero. -/
def truncated (number : ℚ) : ℤ :=
  if 0 ≤ number then ⌊number⌋ else ⌈number⌉

theorem truncated_intCast (value : ℤ) : truncated value = value := by
  simp [truncated]

theorem truncated_neg (number : ℚ) : truncated (-number) = -truncated number := by
  unfold truncated
  rcases lt_trichotomy number 0 with negative | rfl | positive
  · rw [if_pos (by linarith), if_neg (by linarith), Int.floor_neg]
  · simp
  · rw [if_neg (by linarith), if_pos positive.le, Int.ceil_neg]

theorem truncated_eq_zero {number : ℚ} (small : |number| < 1) : truncated number = 0 := by
  obtain ⟨low, high⟩ := abs_lt.mp small
  unfold truncated
  split
  next positive => exact Int.floor_eq_zero_iff.mpr ⟨positive, high⟩
  next negative =>
    exact Int.ceil_eq_zero_iff.mpr ⟨low, le_of_not_ge negative⟩

theorem truncated_natCast_div (dividend divisor : ℕ) :
    truncated ((dividend : ℚ) / divisor) = (dividend / divisor : ℕ) := by
  rw [truncated, if_pos (by positivity)]
  exact Rat.floor_natCast_div_natCast dividend divisor

theorem truncated_div (dividend divisor : ℤ) :
    truncated ((dividend : ℚ) / divisor) = dividend.tdiv divisor := by
  obtain ⟨size, rfl | rfl⟩ := dividend.eq_nat_or_neg <;>
    obtain ⟨parts, rfl | rfl⟩ := divisor.eq_nat_or_neg <;>
    simp [neg_div, div_neg, truncated_neg, truncated_natCast_div]

/-! ### Operators on all integers -/

/-- The exact result of an operator, where it has one. -/
def Operator.exact (operator : Operator) (left right : ℤ) : ℚ :=
  match operator with
  | .assign => right
  | .add => left + right
  | .subtract => left - right
  | .multiply => left * right
  | .divide => left / right
  | .power => (left : ℚ) ^ right

namespace Integer

/-- A division by zero: plain, or in the form of a negative power. -/
def Undefined (operator : Operator) (left right : Int32) : Prop :=
  operator = .divide ∧ right = 0 ∨ operator = .power ∧ left = 0 ∧ right < 0

instance (operator : Operator) (left right : Int32) : Decidable (Undefined operator left right) :=
  inferInstanceAs (Decidable (_ ∨ _))

/-- Repeated squaring computes the power, reduced to 32 bits. -/
theorem power_ofInt (base : ℤ) (exponent : ℕ) :
    power (.ofInt base) exponent = .ofInt (base ^ exponent) := by
  induction exponent using Nat.strong_induction_on generalizing base with
  | _ exponent inductionHypothesis =>
    rw [power]
    split
    next zero =>
      rw [zero, pow_zero]
      rfl
    next positive =>
      have square : power (.ofInt base * .ofInt base) (exponent / 2) =
          .ofInt (base ^ (2 * (exponent / 2))) := by
        rw [← Int32.ofInt_mul, inductionHypothesis (exponent / 2) (by omega), pow_mul, sq]
      rw [square]
      dsimp only
      split
      next odd =>
        rw [← Int32.ofInt_mul, ← pow_succ]
        congr 2
        omega
      next even =>
        congr 2
        omega

theorem power_eq (base : Int32) (exponent : ℕ) :
    power base exponent = .ofInt (base.toInt ^ exponent) := by
  rw [← power_ofInt, Int32.ofInt_toInt]

theorem truncated_inverse {base : ℤ} (large : 1 < |base|) {size : ℕ} (positive : size ≠ 0) :
    truncated ((base : ℚ) ^ (-(size : ℤ))) = 0 := by
  apply truncated_eq_zero
  rw [zpow_neg, zpow_natCast, abs_inv, abs_pow]
  have beyond : (1 : ℚ) < |(base : ℚ)| := by exact_mod_cast large
  exact inv_lt_one_of_one_lt₀ (one_lt_pow₀ beyond positive)

theorem inversePower_eq {base : Int32} (nonzero : base ≠ 0) {size : ℕ} (positive : size ≠ 0) :
    inversePower base size =
      .ok (.ofInt (truncated ((base.toInt : ℚ) ^ (-(size : ℤ))))) := by
  rw [inversePower, if_neg nonzero]
  by_cases one : base = 1
  · have unit : truncated (((1 : Int32).toInt : ℚ) ^ (-(size : ℤ))) = 1 := by
      rw [show (1 : Int32).toInt = 1 from rfl, Int.cast_one, one_zpow]
      exact truncated_intCast 1
    rw [if_pos one, one, unit]
    rfl
  · rw [if_neg one]
    by_cases minus : base = -1
    · have unit : ((-1 : Int32).toInt : ℚ) ^ (-(size : ℤ)) = ((-1) ^ size : ℤ) := by
        have own : ((-1 : Int32).toInt : ℚ) = -1 := by norm_cast
        rw [own, zpow_neg, zpow_natCast, ← inv_pow, inv_neg_one, Int.cast_pow, Int.cast_neg,
          Int.cast_one]
      rw [if_pos minus, minus, unit, truncated_intCast]
      rcases size.even_or_odd with even | odd
      · rw [if_pos (Nat.even_iff.mp even), even.neg_one_pow]
        rfl
      · rw [if_neg (Nat.odd_iff.mp odd ▸ one_ne_zero), odd.neg_one_pow]
        rfl
    · have large : 1 < |base.toInt| := by
        have apart (value : Int32) (other : base ≠ value) : base.toInt ≠ value.toInt :=
          fun same => other (Int32.toInt_inj.mp same)
        have notZero : base.toInt ≠ 0 := apart 0 nonzero
        have notOne : base.toInt ≠ 1 := apart 1 one
        have notMinus : base.toInt ≠ -1 := apart (-1) minus
        rw [lt_abs]
        omega
      rw [if_neg minus, truncated_inverse large positive]
      rfl

theorem div_eq (left right : Int32) : left / right = .ofInt (left.toInt.tdiv right.toInt) := by
  apply Int32.toInt_inj.mp
  rw [Int32.toInt_div, Int32.toInt_ofInt]

/-- What an operator gives: its exact result, truncated toward zero and reduced to 32 bits,
unless it is a division by zero. -/
theorem operate_eq (operator : Operator) (left right : Int32) :
    operate operator left right =
      if Undefined operator left right then .error .divisionByZero
      else .ok (.ofInt (truncated (operator.exact left.toInt right.toInt))) := by
  cases operator with
  | assign =>
      rw [operate, if_neg (by simp [Undefined]), Operator.exact, truncated_intCast,
        Int32.ofInt_toInt]
  | add =>
      rw [operate, if_neg (by simp [Undefined]), Operator.exact, ← Int.cast_add,
        truncated_intCast, Int32.ofInt_add, Int32.ofInt_toInt, Int32.ofInt_toInt]
  | subtract =>
      rw [operate, if_neg (by simp [Undefined]), Operator.exact, ← Int.cast_sub,
        truncated_intCast, Int32.ofInt_sub, Int32.ofInt_toInt, Int32.ofInt_toInt]
  | multiply =>
      rw [operate, if_neg (by simp [Undefined]), Operator.exact, ← Int.cast_mul,
        truncated_intCast, Int32.ofInt_mul, Int32.ofInt_toInt, Int32.ofInt_toInt]
  | divide =>
      have undefined : Undefined .divide left right ↔ right = 0 := by simp [Undefined]
      simp only [operate, undefined, Operator.exact, truncated_div, div_eq]
  | power =>
      have undefined : Undefined .power left right ↔ left = 0 ∧ right < 0 := by simp [Undefined]
      simp only [operate, undefined, Operator.exact]
      by_cases positive : 0 ≤ right
      · have bound : 0 ≤ right.toInt := Int32.le_iff_toInt_le.mp positive
        have whole : ((left.toInt : ℚ) ^ right.toInt) = (left.toInt ^ right.toInt.toNat : ℤ) := by
          rw [Int.cast_pow, ← zpow_natCast, Int.toNat_of_nonneg bound]
        rw [if_pos positive, if_neg fun both => Int32.not_lt.mpr positive both.2, power_eq, whole,
          truncated_intCast]
      · have below : right < 0 := Int32.not_le.mp positive
        have bound : right.toInt < 0 := Int32.lt_iff_toInt_lt.mp below
        have size : -(right.toInt.natAbs : ℤ) = right.toInt := by omega
        rw [if_neg positive]
        by_cases zero : left = 0
        · rw [if_pos ⟨zero, below⟩, inversePower, if_pos zero]
        · rw [if_neg fun both => zero both.1, inversePower_eq zero (by omega), size]

/-- The one quotient that is too large is its own dividend again. -/
example : operate .divide Int32.minValue (-1) = .ok Int32.minValue := by decide

end Integer

namespace Number

theorem operate_int (operator : Operator) (left right : Int32) :
    operate operator (.int left) (.int right) =
      if Integer.Undefined operator left right then .error .divisionByZero
      else .ok (.int (.ofInt (truncated (operator.exact left.toInt right.toInt)))) := by
  rw [operate, Integer.operate_eq]
  split <;> rfl

theorem operate_eq_divisionByZero_iff {operator : Operator} {left right : Number} :
    operate operator left right = .error .divisionByZero ↔
      ∃ first second, left = .int first ∧ right = .int second ∧
        Integer.Undefined operator first second := by
  constructor
  · intro refused
    cases left with
    | int first =>
        cases right with
        | int second =>
            rw [operate_int] at refused
            split at refused
            next undefined => exact ⟨first, second, rfl, rfl, undefined⟩
            next => cases refused
        | _ => cases refused
    | _ => cases right <;> cases refused
  · rintro ⟨first, second, rfl, rfl, undefined⟩
    rw [operate_int, if_pos undefined]

end Number

end Worksheet
