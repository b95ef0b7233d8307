import Worksheet.Decimal.Layout

/-!
# Lexemes are read as they are written

A lexeme with digits before the point is read back from its characters, whatever
follows that cannot go on with it.  The layouts of decimals are such lexemes, and they
stand for the decimals laid out.
-/

namespace Worksheet.Decimal

/-- The text goes on with nothing that belongs to a number or a name. -/
def Stops (rest : List Char) : Prop :=
  ∀ c ∈ rest.head?, c = ' ' ∨ c = ')'

theorem stops_nil : Stops [] := by
  intro c member
  cases member

theorem stops_cons {c : Char} (rest : List Char) (stop : c = ' ' ∨ c = ')') :
    Stops (c :: rest) := by
  intro d member
  cases member
  exact stop

theorem takeWhile_of_head {p : Char → Bool} {rest : List Char}
    (clear : ∀ c ∈ rest.head?, p c = false) : rest.takeWhile p = [] := by
  cases rest with
  | nil => rfl
  | cons c tail => simp [clear c rfl]

theorem dropWhile_of_head {p : Char → Bool} {rest : List Char}
    (clear : ∀ c ∈ rest.head?, p c = false) : rest.dropWhile p = rest := by
  cases rest with
  | nil => rfl
  | cons c tail => simp [clear c rfl]

theorem takeWhile_run {p : Char → Bool} {run rest : List Char} (all : ∀ c ∈ run, p c = true)
    (clear : ∀ c ∈ rest.head?, p c = false) : (run ++ rest).takeWhile p = run := by
  rw [List.takeWhile_append_of_pos all, takeWhile_of_head clear, List.append_nil]

theorem dropWhile_run {p : Char → Bool} {run rest : List Char} (all : ∀ c ∈ run, p c = true)
    (clear : ∀ c ∈ rest.head?, p c = false) : (run ++ rest).dropWhile p = rest := by
  rw [List.dropWhile_append_of_pos all, dropWhile_of_head clear]

theorem isDigit_toDigits {n : Nat} {c : Char} (member : c ∈ Nat.toDigits 10 n) :
    c.isDigit = true :=
  Nat.isDigit_of_mem_toDigits (by decide) (by decide) member

theorem splitSign_of_isDigit {text : List Char} (digit : ∀ c ∈ text.head?, c.isDigit = true) :
    splitSign text = (false, text) := by
  unfold splitSign
  split
  next => exact absurd (digit '-' rfl) (by decide)
  next => exact absurd (digit '+' rfl) (by decide)
  next => rfl

namespace Lexeme

structure Formed (lexeme : Lexeme) : Prop where
  whole_ne_nil : lexeme.whole ≠ []
  isDigit_whole : ∀ c ∈ lexeme.whole, c.isDigit = true
  isDigit_fraction : ∀ c ∈ lexeme.fractionDigits, c.isDigit = true

theorem Formed.isDigit_head {lexeme : Lexeme} (formed : lexeme.Formed) :
    ∀ c ∈ lexeme.chars.head?, c.isDigit = true := by
  obtain ⟨first, others, made⟩ := List.exists_cons_of_ne_nil formed.whole_ne_nil
  intro c member
  rw [chars, made] at member
  cases member
  exact formed.isDigit_whole first (made ▸ List.mem_cons_self)

theorem readPower?_powerChars (power : Int) {rest : List Char} (stops : Stops rest) :
    readPower? (powerChars power ++ rest) = some (power, rest) := by
  have clear : ∀ c ∈ rest.head?, c.isDigit = false := by
    intro c member
    rcases stops c member with rfl | rfl <;> decide
  have digits : ∀ c ∈ Nat.toDigits 10 power.natAbs, c.isDigit = true := fun c => isDigit_toDigits
  have nonempty : Nat.toDigits 10 power.natAbs ≠ [] := Nat.toDigits_ne_nil
  have sign : splitSign (powerChars power ++ rest) =
      (decide (power < 0), Nat.toDigits 10 power.natAbs ++ rest) := by
    unfold powerChars
    split
    next negative => simp [splitSign, negative]
    next positive =>
      rw [splitSign_of_isDigit, decide_eq_false positive]
      intro c member
      obtain ⟨first, others, made⟩ := List.exists_cons_of_ne_nil nonempty
      rw [made] at member digits
      cases member
      exact digits c List.mem_cons_self
  rw [readPower?, sign]
  dsimp only
  rw [takeWhile_run digits clear, dropWhile_run digits clear]
  split
  next empty => exact absurd empty nonempty
  next =>
    rw [Nat.ofDigitChars_ten_toDigits]
    simp only [decide_eq_true_eq, Option.some.injEq, Prod.mk.injEq, and_true]
    split <;> omega

theorem readExponent_exponentChars (exponent : Option Int) {rest : List Char}
    (stops : Stops rest) :
    readExponent (exponentChars exponent ++ rest) = (exponent, rest) := by
  cases exponent with
  | some power =>
      rw [exponentChars, List.cons_append, readExponent, readPower?_powerChars power stops]
      rfl
  | none =>
      cases rest with
      | nil => rfl
      | cons c tail =>
          rcases stops c rfl with rfl | rfl <;> rfl

theorem head_exponentChars (exponent : Option Int) {rest : List Char} (stops : Stops rest) :
    ∀ c ∈ (exponentChars exponent ++ rest).head?, c.isDigit = false ∧ c ≠ '.' := by
  intro c member
  cases exponent with
  | some power =>
      cases member
      decide
  | none => rcases stops c member with rfl | rfl <;> decide

theorem readDigits?_chars {whole : List Char} {fraction : Option (List Char)} {tail : List Char}
    (nonempty : whole ≠ []) (digits : ∀ c ∈ whole, c.isDigit = true)
    (fractionDigits : ∀ c ∈ fraction.getD [], c.isDigit = true)
    (clear : ∀ c ∈ tail.head?, c.isDigit = false ∧ c ≠ '.') :
    readDigits? (whole ++ fractionChars fraction ++ tail) = some (whole, fraction, tail) := by
  have empty : whole.isEmpty = false := by simpa using nonempty
  have tailClear : ∀ c ∈ tail.head?, c.isDigit = false := fun c member => (clear c member).1
  cases fraction with
  | none =>
      rw [readDigits?, fractionChars, List.append_nil, takeWhile_run digits tailClear,
        dropWhile_run digits tailClear]
      dsimp only
      split
      next => exact absurd rfl (clear '.' rfl).2
      next => rw [empty, if_neg Bool.false_ne_true]
  | some run =>
      have pointClear : ∀ c ∈ (fractionChars (some run) ++ tail).head?, c.isDigit = false := by
        intro c member
        cases member
        decide
      rw [readDigits?, List.append_assoc, takeWhile_run digits pointClear,
        dropWhile_run digits pointClear]
      change (if whole.isEmpty && ((run ++ tail).takeWhile Char.isDigit).isEmpty then none
        else some (whole, some ((run ++ tail).takeWhile Char.isDigit),
          (run ++ tail).dropWhile Char.isDigit)) = _
      rw [Option.getD_some] at fractionDigits
      rw [takeWhile_run fractionDigits tailClear, dropWhile_run fractionDigits tailClear, empty,
        Bool.false_and, if_neg Bool.false_ne_true]

theorem read?_chars {lexeme : Lexeme} (formed : lexeme.Formed) {rest : List Char}
    (stops : Stops rest) : read? (lexeme.chars ++ rest) = some (lexeme, rest) := by
  rw [read?, chars, List.append_assoc, readDigits?_chars formed.whole_ne_nil formed.isDigit_whole
    formed.isDigit_fraction (head_exponentChars lexeme.exponent stops), Option.map_some]
  dsimp only
  rw [readExponent_exponentChars lexeme.exponent stops]

end Lexeme

end Worksheet.Decimal
