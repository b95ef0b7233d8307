import Worksheet.Forest.Tree

/-!
Rendering nodes as text that reads back as the same expression.

An operand gets parentheses where the priorities alone would give it to another
operator: on the left if it binds less, on the right if it does not bind more,
and on either side of a right associative operator of its own priority.
-/

namespace Worksheet

def groupLabel : String := "Expressions"

def removedLabel : String := "<removed>"

namespace Tree

/-- The text of an operand, in parentheses if asked for. -/
def enclosed (parentheses : Bool) (text : String) : String :=
  if parentheses then "(" ++ text ++ ")" else text

def render : Tree → String
  | .vacant => ""
  | .lost _ => removedLabel
  | .constant _ value => value.source
  | .variable _ name => name
  | .binary _ operator left right =>
      (if left.isVacant then ""
          else enclosed (operator.enclosesLeft left.operator?) left.render ++ " ") ++
        operator.symbol.toString ++
        (if right.isVacant then ""
          else " " ++ enclosed (operator.enclosesRight right.operator?) right.render)

end Tree

def Forest.render (forest : Forest) (node : Handle) : String :=
  match forest.node? node with
  | some (.group _) => groupLabel
  | _ => (forest.tree node).render

end Worksheet
