import Worksheet.Decimal.Binary
import Worksheet.Decimal.Lexeme

/-!
The shortest decimal for a binary number.

The reals that round to a binary number form a band around it.  Decimals with
few digits lie on a coarse grid, the multiples of a power of ten, and the first
grid that meets the band gives the shortest decimal.  Of a grid only the two
points next to the number have to be tried.  All of it is exact arithmetic on
naturals over one denominator.
-/

namespace Worksheet.Decimal

open Binary

/-- The fractions between `low` and `high`, around `value`, all over `unit`. -/
structure Band where
  low : Nat
  value : Nat
  high : Nat
  unit : Nat
  /-- Whether the two ends belong to the band. -/
  closed : Bool
deriving DecidableEq, Repr

/-- The reals that round to the number: half the way to each neighbour.  A tie
goes to the even mantissa, so the ends belong to an even one. -/
def Band.around (number : Scaled) : Band :=
  let scale := Nat.pow 2 (number.exponent - 2).toNat
  { low := (4 * number.mantissa - if number.narrowBelow then 1 else 2) * scale
    value := 4 * number.mantissa * scale
    high := (4 * number.mantissa + 2) * scale
    unit := Nat.pow 2 (2 - number.exponent).toNat
    closed := number.mantissa % 2 = 0 }

namespace Band

/-- Whether a point is inside the band when all but the point is multiplied by `scale`. -/
def admits (band : Band) (scale point : Nat) : Bool :=
  if band.closed then band.low * scale ≤ point && point ≤ band.high * scale
  else band.low * scale < point && point < band.high * scale

/-- The multiple of `10 ^ exponent` inside the band that is nearest to its value.
The larger of two equally near ones is taken. -/
def onGrid? (band : Band) (exponent : Int) : Option Decimal :=
  let scale := Nat.pow 10 (-exponent).toNat
  let step := band.unit * Nat.pow 10 exponent.toNat
  let value := band.value * scale
  let below := value / step
  let lower := below * step
  let upper := lower + step
  match band.admits scale lower, band.admits scale upper with
  | true, true => some ⟨if value - lower < upper - value then below else below + 1, exponent⟩
  | true, false => some ⟨below, exponent⟩
  | false, true => some ⟨below + 1, exponent⟩
  | false, false => none

def digitCount (n : Nat) : Nat :=
  if n = 0 then 0 else (Nat.toDigits 10 n).length

/-- The least power of ten that exceeds the value, as its exponent. -/
def ceilingExponent (band : Band) : Int :=
  if band.unit ≤ band.value then digitCount (band.value / band.unit)
  else 1 - digitCount ((band.unit - 1) / band.value)

/-- The exact value, for a band over a power of two. -/
def exact (band : Band) : Decimal :=
  ⟨band.value * Nat.pow 5 band.unit.log2, -band.unit.log2⟩

/-- The first hit on grids of `0`, `1`, … `17` digits.  Seventeen are enough for
every number of the double format; the exact value stands in for wider ones. -/
def shortest (band : Band) : Decimal :=
  let grids := (List.range 18).map fun (count : Nat) => band.ceilingExponent - count
  (grids.findSome? band.onGrid?).getD band.exact

end Band

def shortest (number : Scaled) : Decimal :=
  (Band.around number).shortest

end Worksheet.Decimal
