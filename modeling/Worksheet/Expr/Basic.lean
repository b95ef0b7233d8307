import Worksheet.Number.Basic
import Worksheet.Operator

/-!
Expressions as values: numbers, variables and operators with two operands.
-/

namespace Worksheet

inductive Expr where
  | number (value : Number)
  | variable (name : String)
  | binary (operator : Operator) (left right : Expr)
deriving DecidableEq

namespace Expr

def isAssignment : Expr → Bool
  | .binary .assign _ _ => true
  | _ => false

def isVariable : Expr → Bool
  | .variable _ => true
  | _ => false

/-- Equality of shape, operators and names, with numbers compared as numbers. -/
def agrees : Expr → Expr → Bool
  | .number left, .number right => left.agrees right
  | .variable left, .variable right => left == right
  | .binary operator left right, .binary operator' left' right' =>
      operator == operator' && left.agrees left' && right.agrees right'
  | _, _ => false

def names : Expr → List String
  | .number _ => []
  | .variable name => [name]
  | .binary _ left right => left.names ++ right.names

def size : Expr → Nat
  | .number _ | .variable _ => 1
  | .binary _ left right => left.size + right.size + 1

end Expr

end Worksheet
