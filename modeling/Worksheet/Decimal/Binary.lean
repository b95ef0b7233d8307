/-!
Binary floating-point formats.

A bit pattern has a sign, `Format.isNegative`, and a `Format.magnitude`.  A finite
magnitude is `mantissa · 2 ^ exponent`, with a flag for the powers of two: the
next smaller number is then only half as far away as the next larger one.
-/

namespace Worksheet.Binary

structure Format where
  fractionBits : Nat
  exponentBits : Nat
deriving DecidableEq, Repr

def Format.ofSpec (spec : Float.Model.Format) : Format :=
  ⟨spec.mantissaBitsWithoutImplicit, spec.exponentBits⟩

/-- The positive number `mantissa · 2 ^ exponent`. -/
structure Scaled where
  mantissa : Nat
  exponent : Int
  /-- The neighbour below is at half the distance of the neighbour above. -/
  narrowBelow : Bool
deriving DecidableEq, Repr

inductive Magnitude where
  | zero
  | finite (value : Scaled)
  | infinite
  | notANumber
deriving DecidableEq, Repr

namespace Format

/-- The exponent of the last bit of the smallest numbers. -/
def lowestExponent (format : Format) : Int :=
  2 - Nat.pow 2 (format.exponentBits - 1) - format.fractionBits

def isNegative (format : Format) (bits : Nat) : Bool :=
  bits / Nat.pow 2 (format.fractionBits + format.exponentBits) % 2 = 1

def magnitude (format : Format) (bits : Nat) : Magnitude :=
  let leading := Nat.pow 2 format.fractionBits
  let fraction := bits % leading
  let stored := bits / leading % Nat.pow 2 format.exponentBits
  if stored + 1 = Nat.pow 2 format.exponentBits then
    if fraction = 0 then .infinite else .notANumber
  else if stored = 0 then
    if fraction = 0 then .zero else .finite ⟨fraction, format.lowestExponent, false⟩
  else
    .finite ⟨leading + fraction, format.lowestExponent + (stored - 1 : Nat),
      fraction = 0 && stored ≠ 1⟩

end Format

end Worksheet.Binary
