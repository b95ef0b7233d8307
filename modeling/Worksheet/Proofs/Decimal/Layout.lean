import Mathlib.Algebra.Order.Field.Rat
import Mathlib.Tactic.FieldSimp
import Mathlib.Tactic.Ring
import Worksheet.Proofs.Decimal.Lexeme

/-!
# Laid out decimals

Wherever the point goes, a decimal is laid out as a lexeme that can be read back and
that has the decimal's value.
-/

namespace Worksheet.Decimal

def value (number : Decimal) : ℚ :=
  number.digits * 10 ^ number.exponent

variable {digits : List Char} {point : Int}

theorem formed_plain (nonempty : digits ≠ []) (all : ∀ c ∈ digits, c.isDigit = true) :
    (plain digits point).Formed := by
  have zeros (count : Nat) (c : Char) (member : c ∈ List.replicate count '0') :
      c.isDigit = true := by
    rw [List.eq_of_mem_replicate member]
    rfl
  rw [plain]
  split
  next =>
    refine ⟨by simp, by simp, fun c member => ?_⟩
    rcases List.mem_append.mp member with zero | digit
    · exact zeros _ c zero
    · exact all c digit
  next positive =>
    split
    next inside =>
      refine ⟨?_, fun c member => all c (List.mem_of_mem_take member),
        fun c member => all c (List.mem_of_mem_drop member)⟩
      rw [ne_eq, List.take_eq_nil_iff]
      intro empty
      rcases empty with none | none
      · omega
      · exact nonempty none
    next =>
      refine ⟨by simp [nonempty], fun c member => ?_, by simp [Lexeme.fractionDigits]⟩
      rcases List.mem_append.mp member with digit | zero
      · exact all c digit
      · exact zeros _ c zero

theorem formed_scientific (nonempty : digits ≠ []) (all : ∀ c ∈ digits, c.isDigit = true) :
    (scientific digits point).Formed := by
  refine ⟨?_, fun c member => all c (List.mem_of_mem_take member), ?_⟩
  · simpa [scientific] using nonempty
  · intro c member
    rw [Lexeme.fractionDigits, scientific] at member
    dsimp only at member
    split at member
    next => cases member
    next => exact all c (List.mem_of_mem_drop member)

theorem formed_lexeme (layout : Layout) (number : Decimal) : (layout.lexeme number).Formed := by
  have all : ∀ c ∈ Nat.toDigits 10 number.digits, c.isDigit = true := fun c => isDigit_toDigits
  rw [Layout.lexeme]
  split
  next => exact formed_plain Nat.toDigits_ne_nil all
  next => exact formed_scientific Nat.toDigits_ne_nil all

theorem formed_digit {digit : Char} (isDigit : digit.isDigit = true) :
    Lexeme.Formed ⟨[digit], some ['0'], none⟩ := by
  refine ⟨List.cons_ne_nil _ _, ?_, ?_⟩
  · exact List.forall_mem_singleton.mpr isDigit
  · exact List.forall_mem_singleton.mpr rfl

theorem formed_zero : Layout.zero.Formed :=
  formed_digit rfl

theorem value_plain (point : Int) : (plain digits point).decimal.value =
    Nat.ofDigitChars 10 digits 0 * 10 ^ (point - digits.length) := by
  rw [plain]
  split
  next small =>
    have size : (0 : Int) - ((-point).toNat + digits.length : Nat) = point - digits.length := by
      omega
    simp only [value, Lexeme.decimal, Lexeme.fractionDigits, Option.getD_some, Option.getD_none,
      List.length_append, List.length_replicate]
    have zero : Nat.ofDigitChars 10 ['0'] 0 = 0 := rfl
    rw [size, ← List.append_assoc, Nat.ofDigitChars_append, Nat.ofDigitChars_append, zero,
      Nat.ofDigitChars_replicate_zero, Nat.mul_zero]
  next positive =>
    split
    next inside =>
      have size : (0 : Int) - (digits.length - point.toNat : Nat) = point - digits.length := by
        omega
      simp only [value, Lexeme.decimal, Lexeme.fractionDigits, Option.getD_some, Option.getD_none,
        List.length_drop]
      rw [size, List.take_append_drop]
    next outside =>
      have size : point - digits.length = (point.toNat - digits.length : Nat) := by omega
      simp only [value, Lexeme.decimal, Lexeme.fractionDigits, Option.getD_some, Option.getD_none]
      rw [List.append_assoc, Nat.ofDigitChars_append,
        show ['0'] = List.replicate 1 '0' from rfl, List.replicate_append_replicate,
        Nat.ofDigitChars_replicate_zero, size, zpow_natCast, pow_succ]
      push_cast
      rw [show (0 : Int) - (['0'].length : Nat) = -1 from rfl, zpow_neg_one]
      field_simp

theorem value_scientific (point : Int) (nonempty : digits ≠ []) :
    (scientific digits point).decimal.value =
      Nat.ofDigitChars 10 digits 0 * 10 ^ (point - digits.length) := by
  have positive := List.length_pos_iff.mpr nonempty
  simp only [value, Lexeme.decimal, Lexeme.fractionDigits, scientific, Option.getD_some]
  split
  next single =>
    have size : point - 1 - (([] : List Char).length : Int) = point - digits.length := by
      rw [List.length_nil]
      omega
    rw [Option.getD_none, size, List.append_nil, List.take_of_length_le single]
  next =>
    have size : point - 1 - ((digits.drop 1).length : Int) = point - digits.length := by
      rw [List.length_drop]
      omega
    rw [Option.getD_some, size, List.take_append_drop]

theorem value_lexeme (layout : Layout) (number : Decimal) :
    (layout.lexeme number).decimal.value = number.value := by
  have point : ((Nat.toDigits 10 number.digits).length + number.exponent : Int) -
      (Nat.toDigits 10 number.digits).length = number.exponent := by omega
  rw [Layout.lexeme]
  split
  next => rw [value_plain, Nat.ofDigitChars_ten_toDigits, point, value]
  next =>
    rw [value_scientific _ Nat.toDigits_ne_nil, Nat.ofDigitChars_ten_toDigits, point, value]

end Worksheet.Decimal
