import Worksheet.Decimal.Layout
import Worksheet.Decimal.Shortest
import Worksheet.Number.Basic
import Worksheet.Number.Floating

/-!
Writing numbers.

`Number.text` is the number as it is shown.  `Number.source` is an expression
that evaluates to the number; it differs where the number has no literal.
-/

namespace Worksheet

open Binary Decimal

namespace Number

/-- Floats are written in full from `0.0001` up to below `10 ^ 16`, with one
digit at least after the point, and with a power of ten outside that range. -/
def layout : Layout := ⟨-3, 16⟩

/-- What is written for a floating-point number. -/
inductive Written where
  | decimal (negative : Bool) (lexeme : Lexeme)
  | infinite (negative : Bool)
  | notANumber
deriving DecidableEq, Repr

namespace Written

def ofBits (format : Format) (bits : Nat) : Written :=
  let negative := format.isNegative bits
  match format.magnitude bits with
  | .zero => .decimal negative Layout.zero
  | .finite value => .decimal negative (layout.lexeme (Decimal.shortest value))
  | .infinite => .infinite negative
  | .notANumber => .notANumber

def withSign (negative : Bool) (chars : List Char) : List Char :=
  if negative then '-' :: chars else chars

/-- The sign of a NaN is not shown. -/
def text : Written → String
  | .decimal negative lexeme => String.ofList (withSign negative lexeme.chars)
  | .infinite negative => String.ofList (withSign negative ['i', 'n', 'f'])
  | .notANumber => "NaN"

/-- Infinities and NaN are quotients, in parentheses so that they stand anywhere. -/
def source : Written → String
  | .decimal negative lexeme => String.ofList (withSign negative lexeme.chars)
  | .infinite false => "(1.0 / 0.0)"
  | .infinite true => "(-1.0 / 0.0)"
  | .notANumber => "(0.0 / 0.0)"

end Written

def integerText (value : Int32) : String :=
  toString value.toInt

def written {F : Type} [Floating F] (value : F) : Written :=
  .ofBits (.ofSpec (Floating.spec F)) (Floating.bits value).toNat

def text : Number → String
  | int value => integerText value
  | float value => (written value).text
  | double value => (written value).text

instance : ToString Number := ⟨text⟩

def source : Number → String
  | int value => integerText value
  | float value => (written value).source
  | double value => (written value).source

end Number

end Worksheet
