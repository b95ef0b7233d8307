import Worksheet.Fault
import Worksheet.Number.Floating
import Worksheet.Operator

/-!
Applying an operator to two numbers of one kind.

Integers wrap around at 32 bits, and division truncates toward zero.  An integer
power with a negative exponent is the rational power truncated toward zero.
Floating-point numbers follow IEEE 754.
-/

namespace Worksheet

namespace Integer

/-- The power by repeated squaring, wrapping at every step. -/
def power (base : Int32) (exponent : Nat) : Int32 :=
  if exponent = 0 then 1
  else
    let square := power (base * base) (exponent / 2)
    if exponent % 2 = 1 then square * base else square
termination_by exponent

/-- `base` to the power of `-size`, for a positive `size`. -/
def inversePower (base : Int32) (size : Nat) : Except Fault Int32 :=
  if base = 0 then .error .divisionByZero
  else if base = 1 then .ok 1
  else if base = -1 then .ok (if size % 2 = 0 then 1 else -1)
  else .ok 0

def operate (operator : Operator) (left right : Int32) : Except Fault Int32 :=
  match operator with
  | .assign => .ok right
  | .add => .ok (left + right)
  | .subtract => .ok (left - right)
  | .multiply => .ok (left * right)
  | .divide => if right = 0 then .error .divisionByZero else .ok (left / right)
  | .power =>
      if 0 ≤ right then .ok (power left right.toInt.toNat)
      else inversePower left right.toInt.natAbs

end Integer

def Floating.operate {F : Type} [Floating F] (operator : Operator) (left right : F) : F :=
  match operator with
  | .assign => right
  | .add => left + right
  | .subtract => left - right
  | .multiply => left * right
  | .divide => left / right
  | .power => Floating.power left right

namespace Number

/-- The kind of the left operand decides what is expected of the right one. -/
def operate (operator : Operator) (left right : Number) : Except Fault Number :=
  match left, right with
  | int left, int right => (Integer.operate operator left right).map int
  | float left, float right => .ok (float (Floating.operate operator left right))
  | double left, double right => .ok (double (Floating.operate operator left right))
  | left, right => .error (.mixedKinds left.kind right.kind)

end Number

end Worksheet
