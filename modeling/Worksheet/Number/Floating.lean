/-!
Floating-point numbers.

What a sheet does with them is the same for either width, and is told of any type whose
numbers are known by their bit patterns.
-/

namespace Worksheet

class Floating (F : Type) extends Add F, Sub F, Mul F, Div F, Neg F, LT F, OfScientific F where
  /-- The widths of the fields of a bit pattern. -/
  spec : Float.Model.Format
  bits : F → BitVec spec.numBits
  power : F → F → F
  isFinite : F → Bool
  isNaN : F → Bool
  decidableLT : DecidableLT F

namespace Floating

instance {F : Type} [Floating F] : DecidableLT F :=
  decidableLT

instance : Floating Float32 where
  spec := .binary32
  bits value := value.toBits.toBitVec
  power := Float32.pow
  isFinite := Float32.isFinite
  isNaN := Float32.isNaN
  decidableLT := inferInstance

instance : Floating Float where
  spec := .binary64
  bits value := value.toBits.toBitVec
  power := Float.pow
  isFinite := Float.isFinite
  isNaN := Float.isNaN
  decidableLT := inferInstance

end Floating

end Worksheet
