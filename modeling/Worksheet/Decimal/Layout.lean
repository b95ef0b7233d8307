import Worksheet.Decimal.Lexeme

/-!
Where the point goes when a decimal is written.

A decimal with digits `d₁ d₂ … dₙ` is `0.d₁ d₂ … dₙ · 10 ^ point`.  A layout says
for which points the number is written without a power of ten.
-/

namespace Worksheet.Decimal

structure Layout where
  /-- The least point position that is written without a power of ten. -/
  firstPlain : Int
  /-- The greatest point position that is written without a power of ten. -/
  lastPlain : Int
deriving DecidableEq, Repr

def Layout.zero : Lexeme := ⟨['0'], some ['0'], none⟩

/-- All digits in place, with zeros up to the point and one digit at least on
either side of it. -/
def plain (digits : List Char) (point : Int) : Lexeme :=
  if point ≤ 0 then
    ⟨['0'], some (List.replicate (-point).toNat '0' ++ digits), none⟩
  else if point.toNat < digits.length then
    ⟨digits.take point.toNat, some (digits.drop point.toNat), none⟩
  else
    ⟨digits ++ List.replicate (point.toNat - digits.length) '0', some ['0'], none⟩

/-- One digit before the point, and the point only if digits follow it. -/
def scientific (digits : List Char) (point : Int) : Lexeme :=
  ⟨digits.take 1, if digits.length ≤ 1 then none else some (digits.drop 1), some (point - 1)⟩

def Layout.lexeme (layout : Layout) (number : Decimal) : Lexeme :=
  let digits := Nat.toDigits 10 number.digits
  let point := digits.length + number.exponent
  if layout.firstPlain ≤ point ∧ point ≤ layout.lastPlain then plain digits point
  else scientific digits point

end Worksheet.Decimal
