import Worksheet.Number.Write
import Worksheet.Pool

/-!
What can go wrong with expressions: in arithmetic, with the values of variables,
and in building and changing trees.
-/

namespace Worksheet

/-- Why a node cannot go where it was to be put. -/
inductive Misplacement where
  | operandTwice
  | groupBelow
  | belowTerminal
  | assignmentBelow
  | operandsTaken
deriving DecidableEq, Repr

def Misplacement.reason : Misplacement → String
  | operandTwice => "the same node can't be both operands"
  | groupBelow => "a group can't have a parent"
  | belowTerminal => "parent is a terminal expression"
  | assignmentBelow => "an assignment is always a root expression"
  | operandsTaken => "both operands are already set"

inductive Fault where
  | noValue
  | groupHasNoValue
  | conflictingValue (name : String) (registered provided : Number)
  | invalidTarget
  | cycle
  | misplaced (why : Misplacement)
  | mixedKinds (expected found : Kind)
  | divisionByZero
  | nothingToSet
  | removed (node : Handle)
  | notBinary (node : Handle)
  | notGroup (node : Handle)
deriving DecidableEq

def Fault.message : Fault → String
  | noValue => "no value yet"
  | groupHasNoValue => "a group has no value of its own"
  | conflictingValue name registered provided =>
      s!"multiple values for the same variable {name}: {registered} != {provided}"
  | invalidTarget => "left side of an assignment must be a variable"
  | cycle => "parent can't be contained in its own child"
  | misplaced why => s!"invalid parent: {why.reason}"
  | mixedKinds expected found =>
      s!"unsupported numeric kind: expected {expected}, found {found}"
  | divisionByZero => "integer division by zero"
  | nothingToSet => "null value: use clear_value to remove a variable's value"
  | removed node => s!"node {node} no longer exists"
  | notBinary node => s!"node {node} is not a binary expression"
  | notGroup node => s!"node {node} is not a group"

end Worksheet
