/-!
Numbers of three kinds: 32-bit integers, and binary floating-point numbers of
single and double width.  A sheet holds numbers of one kind only.
-/

namespace Worksheet

inductive Kind where
  | int
  | float
  | double
deriving DecidableEq, Repr

inductive Number where
  | int (value : Int32)
  | float (value : Float32)
  | double (value : Float)
deriving DecidableEq

namespace Kind

def all : List Kind := [int, float, double]

def name : Kind → String
  | int => "int"
  | float => "float"
  | double => "double"

instance : ToString Kind := ⟨name⟩

/-- The kind of a sheet for which none is chosen. -/
def standard : Kind := int

def one : Kind → Number
  | int => .int 1
  | float => .float 1.0
  | double => .double 1.0

end Kind

namespace Number

def kind : Number → Kind
  | int _ => .int
  | float _ => .float
  | double _ => .double

/-- Equality as numbers: a NaN agrees with nothing, the two zeros with each
other, and numbers of different kinds never. -/
def agrees : Number → Number → Bool
  | int left, int right => left == right
  | float left, float right => left == right
  | double left, double right => left == right
  | _, _ => false

def isFinite : Number → Bool
  | int _ => true
  | float value => value.isFinite
  | double value => value.isFinite

/-- The unary minus.  The least integer is its own negative. -/
def negate : Number → Number
  | int value => int (-value)
  | float value => float (-value)
  | double value => double (-value)

@[simp]
theorem kind_negate (number : Number) : number.negate.kind = number.kind := by
  cases number <;> rfl

@[simp]
theorem negate_int (value : Int32) : (int value).negate = int (-value) := rfl

end Number

@[simp]
theorem Kind.kind_one (kind : Kind) : kind.one.kind = kind := by
  cases kind <;> rfl

end Worksheet
