import Worksheet.Decimal.Lexeme
import Worksheet.Number.Basic
import Worksheet.Number.Floating
import Worksheet.Text.Blank

/-!
Reading numbers and the names of their kinds.

A floating-point text may also name an infinity or a NaN, in any case.  A
literal of an expression has to be finite.
-/

namespace Worksheet

open Decimal

/-- A decimal text, or one of the names for what no decimal stands for. -/
inductive Reading where
  | decimal (value : Decimal)
  | infinite
  | notANumber
deriving DecidableEq, Repr

namespace Reading

def ofUnsigned? (text : List Char) : Option Reading :=
  match Lexeme.read? text with
  | some (lexeme, []) => some (.decimal lexeme.decimal)
  | _ =>
      match String.ofList (text.map Char.toLower) with
      | "inf" | "infinity" => some .infinite
      | "nan" => some .notANumber
      | _ => none

/-- The nearest number, rounded once. -/
def value {F : Type} [Floating F] : Reading → F
  | .decimal value =>
      OfScientific.ofScientific value.digits (decide (value.exponent < 0)) value.exponent.natAbs
  | .infinite => 1.0 / 0.0
  | .notANumber => 0.0 / 0.0

end Reading

/-- One or more digits and nothing else. -/
def wholeNumber? (text : List Char) : Option Nat :=
  if text.isEmpty || !text.all Char.isDigit then none else some (Nat.ofDigitChars 10 text 0)

def readInteger? (text : List Char) : Option Int32 := do
  let (negative, digits) := splitSign text
  let size : Nat ← wholeNumber? digits
  let value : Int := if negative then -size else size
  if -2147483648 ≤ value ∧ value ≤ 2147483647 then some (Int32.ofInt value) else none

def readFloating? {F : Type} [Floating F] (text : List Char) : Option F :=
  let (negative, digits) := splitSign text
  (Reading.ofUnsigned? digits).map fun reading =>
    if negative then -reading.value else reading.value

namespace Kind

/-- The number of this kind that the text stands for, finite or not. -/
def read? (kind : Kind) (text : List Char) : Option Number :=
  match kind with
  | .int => (readInteger? text).map .int
  | .float => (readFloating? text).map .float
  | .double => (readFloating? text).map .double

/-- The value of a literal: an integer in range, or a finite float. -/
def literal? (kind : Kind) (text : List Char) : Option Number :=
  (kind.read? text).filter Number.isFinite

/-- Blanks around a kind's name and its case do not matter. -/
def ofName? (text : String) : Option Kind :=
  match String.ofList ((Text.trim text.toList).map Char.toLower) with
  | "int" => some .int
  | "float" => some .float
  | "double" => some .double
  | _ => none

theorem kind_of_read? {kind : Kind} {text : List Char} {number : Number}
    (found : kind.read? text = some number) : number.kind = kind := by
  cases kind <;> simp only [read?, Option.map_eq_some_iff] at found <;>
    obtain ⟨_, _, rfl⟩ := found <;> rfl

theorem kind_of_literal? {kind : Kind} {text : List Char} {number : Number}
    (found : kind.literal? text = some number) : number.kind = kind :=
  kind_of_read? (Option.filter_eq_some_iff.mp found).1

theorem isFinite_of_literal? {kind : Kind} {text : List Char} {number : Number}
    (found : kind.literal? text = some number) : number.isFinite = true :=
  (Option.filter_eq_some_iff.mp found).2

end Kind

end Worksheet
