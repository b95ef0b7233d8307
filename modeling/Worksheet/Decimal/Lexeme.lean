/-!
Decimal numbers and their written form.

A `Lexeme` is the written form: digits, perhaps a point with more digits,
perhaps a power of ten.  `Lexeme.read?` takes the longest lexeme at the start of
a text, and `Lexeme.chars` writes one.  At least one digit stands before the
power of ten, on one side of the point or the other.
-/

namespace Worksheet

/-- The number `digits · 10 ^ exponent`. -/
structure Decimal where
  digits : Nat
  exponent : Int
deriving DecidableEq, Repr

namespace Decimal

/-- Takes an optional sign off the front; `true` stands for a minus. -/
def splitSign : List Char → Bool × List Char
  | '-' :: text => (true, text)
  | '+' :: text => (false, text)
  | text => (false, text)

structure Lexeme where
  whole : List Char
  /-- The digits after the point; `none` when there is no point. -/
  fraction : Option (List Char)
  /-- The power of ten; `none` when none is written. -/
  exponent : Option Int
deriving DecidableEq, Repr

namespace Lexeme

def fractionDigits (lexeme : Lexeme) : List Char :=
  lexeme.fraction.getD []

def decimal (lexeme : Lexeme) : Decimal where
  digits := Nat.ofDigitChars 10 (lexeme.whole ++ lexeme.fractionDigits) 0
  exponent := lexeme.exponent.getD 0 - lexeme.fractionDigits.length

/-- Reads digits with an optional sign, as they follow the mark of an exponent. -/
def readPower? (text : List Char) : Option (Int × List Char) :=
  let (negative, digits) := splitSign text
  match digits.takeWhile Char.isDigit with
  | [] => none
  | run =>
      let size : Int := Nat.ofDigitChars 10 run 0
      some (if negative then -size else size, digits.dropWhile Char.isDigit)

/-- Reads a power of ten if a complete one is there, and otherwise nothing. -/
def readExponent : List Char → Option Int × List Char
  | [] => (none, [])
  | mark :: text =>
      if mark = 'e' || mark = 'E' then
        match readPower? text with
        | some (power, rest) => (some power, rest)
        | none => (none, mark :: text)
      else (none, mark :: text)

/-- Reads the digits around the point, and the point if there is one. -/
def readDigits? (text : List Char) : Option (List Char × Option (List Char) × List Char) :=
  let whole := text.takeWhile Char.isDigit
  match text.dropWhile Char.isDigit with
  | '.' :: tail =>
      let fraction := tail.takeWhile Char.isDigit
      if whole.isEmpty && fraction.isEmpty then none
      else some (whole, some fraction, tail.dropWhile Char.isDigit)
  | rest => if whole.isEmpty then none else some (whole, none, rest)

/-- The longest lexeme at the start of the text, and what follows it. -/
def read? (text : List Char) : Option (Lexeme × List Char) :=
  (readDigits? text).map fun (whole, fraction, rest) =>
    (⟨whole, fraction, (readExponent rest).1⟩, (readExponent rest).2)

def powerChars (power : Int) : List Char :=
  if power < 0 then '-' :: Nat.toDigits 10 power.natAbs else Nat.toDigits 10 power.natAbs

def fractionChars : Option (List Char) → List Char
  | none => []
  | some digits => '.' :: digits

def exponentChars : Option Int → List Char
  | none => []
  | some power => 'e' :: powerChars power

def chars (lexeme : Lexeme) : List Char :=
  lexeme.whole ++ fractionChars lexeme.fraction ++ exponentChars lexeme.exponent

theorem length_takeWhile_add_dropWhile (p : Char → Bool) (text : List Char) :
    (text.takeWhile p).length + (text.dropWhile p).length = text.length := by
  rw [← List.length_append, List.takeWhile_append_dropWhile]

theorem length_splitSign_le (text : List Char) : (splitSign text).2.length ≤ text.length := by
  unfold splitSign
  split <;> simp

theorem length_le_of_readPower? {text rest : List Char} {power : Int}
    (found : readPower? text = some (power, rest)) : rest.length ≤ text.length := by
  simp only [readPower?] at found
  split at found
  · cases found
  · cases found
    have sign := length_splitSign_le text
    have run := length_takeWhile_add_dropWhile Char.isDigit (splitSign text).2
    omega

theorem length_readExponent_le (text : List Char) :
    (readExponent text).2.length ≤ text.length := by
  unfold readExponent
  split
  · simp
  · split
    · split
      next found => exact Nat.le_succ_of_le (length_le_of_readPower? found)
      next => simp
    · simp

theorem length_lt_of_readDigits? {text whole rest : List Char} {fraction : Option (List Char)}
    (found : readDigits? text = some (whole, fraction, rest)) : rest.length < text.length := by
  have run := length_takeWhile_add_dropWhile Char.isDigit text
  simp only [readDigits?] at found
  split at found
  next tail pointed =>
    have tailRun := length_takeWhile_add_dropWhile Char.isDigit tail
    split at found
    · cases found
    · cases found
      simp only [pointed, List.length_cons] at run
      omega
  next =>
    split at found
    · cases found
    next filled =>
      cases found
      have := List.length_pos_iff.mpr (mt List.isEmpty_iff.mpr filled)
      omega

theorem length_lt_of_read? {text rest : List Char} {lexeme : Lexeme}
    (found : read? text = some (lexeme, rest)) : rest.length < text.length := by
  obtain ⟨⟨whole, fraction, middle⟩, digits, same⟩ := Option.map_eq_some_iff.mp found
  have first := length_lt_of_readDigits? digits
  have second := length_readExponent_le middle
  obtain ⟨_, rfl⟩ := Prod.mk.inj same
  omega

end Lexeme

end Decimal

end Worksheet
