import Worksheet.Forest.Tree
import Worksheet.Number.Arithmetic

/-!
Values of nodes.

Evaluating an assignment stores the result in its target; nothing else writes to
the table of variables.  A group has a value when all its members have one, but
it yields no number.
-/

namespace Worksheet

namespace Tree

/-- Whether every number that evaluation needs is there. -/
def hasValue (table : Variables) : Tree → Bool
  | .vacant | .lost _ => false
  | .constant _ _ => true
  | .variable _ name => (table.value? name).isSome
  | .binary _ .assign left right => !left.isVacant && right.hasValue table
  | .binary _ _ left right => left.hasValue table && right.hasValue table

/-- Stores a number if the tree is a variable. -/
def store (target : Tree) (table : Variables) (value : Number) : Variables :=
  match target with
  | .variable _ name => table.set name value
  | _ => table

/-- The value, and the variables after the evaluation.  Operands are evaluated
from left to right, up to the first one that fails. -/
def evaluate : Tree → Variables → Except Fault Number × Variables
  | .vacant, table => (.error .noValue, table)
  | .lost id, table => (.error (.removed id), table)
  | .constant _ value, table => (.ok value, table)
  | .variable _ name, table =>
      match table.value? name with
      | some value => (.ok value, table)
      | none => (.error .noValue, table)
  | .binary _ operator left right, table =>
      if left.isVacant || right.isVacant then (.error .noValue, table)
      else if operator = .assign then
        match right.evaluate table with
        | (.ok value, table) => (.ok value, left.store table value)
        | failed => failed
      else
        match left.evaluate table with
        | (.ok first, table) =>
            match right.evaluate table with
            | (.ok second, table) => (Number.operate operator first second, table)
            | failed => failed
        | failed => failed

end Tree

namespace Forest

def hasValue (forest : Forest) (node : Handle) : Bool :=
  (forest.trees node).all fun tree => tree.hasValue forest.table

def value (forest : Forest) (node : Handle) : Except Fault Number × Forest :=
  match forest.node? node with
  | some (.group _) =>
      (.error (if forest.hasValue node then .groupHasNoValue else .noValue), forest)
  | _ =>
      let (result, table) := (forest.tree node).evaluate forest.table
      (result, { forest with table })

def tryValue (forest : Forest) (node : Handle) : Except Fault (Option Number) × Forest :=
  if forest.hasValue node then
    let (result, forest) := forest.value node
    (result.map some, forest)
  else (.ok none, forest)

end Forest

end Worksheet
