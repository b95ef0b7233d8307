import Worksheet.Number.Basic
import Worksheet.Operator

/-!
What can go wrong in reading expressions: the text does not have their form, a
literal has no value of the kind, or an assignment stands where it may not.
-/

namespace Worksheet

inductive Malformation where
  | negated
  | operandOf (operator : Operator)
  | targetNotVariable
deriving DecidableEq, Repr

def Malformation.reason : Malformation → String
  | negated => "an assignment can't be negated"
  | operandOf operator => s!"an assignment can't be an operand of `{operator}`"
  | targetNotVariable => "left side of `=` must be a variable"

inductive Expected where
  | expression
  | operand
  | operatorInside
  | operatorOrEnd
deriving DecidableEq, Repr

def Expected.description : Expected → String
  | expression => "expr"
  | operand => "`-`, number, or variable"
  | operatorInside => "`=`, `+`, `-`, `*`, `/`, or `^`"
  | operatorOrEnd => "end of expression, `=`, `+`, `-`, `*`, `/`, or `^`"

inductive ReadError where
  | missingOperand
  | unbalancedParentheses
  | malformedAssignment (why : Malformation)
  | invalidLiteral (literal : String) (kind : Kind)
  /-- Positions count bytes from one. -/
  | unexpected (expected : Expected) (position : Nat)
  | nothingGiven
deriving DecidableEq

def ReadError.message : ReadError → String
  | missingOperand => "missing operand"
  | unbalancedParentheses => "unbalanced parentheses"
  | malformedAssignment why => s!"malformed assignment: {why.reason}"
  | invalidLiteral literal kind => s!"invalid {kind} literal: {literal}"
  | unexpected expected position =>
      s!"syntax error: expected {expected.description} at position {position}"
  | nothingGiven => "null input"

end Worksheet
