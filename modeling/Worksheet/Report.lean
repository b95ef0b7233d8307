import Worksheet.Sheet.Enter

/-!
The report on a sheet: each expression with its value and its tree, and then each
variable.
-/

namespace Worksheet

def indentation (depth : Nat) : String :=
  String.join (List.replicate depth "  ")

/-- One line for each node of an expression, operators before their operands, and each
operand one level deeper than its operator. -/
def Tree.outline (depth : Nat) : Tree → List String
  | .vacant | .lost _ => []
  | .binary _ operator left right =>
      (indentation depth ++ operator.symbol.toString) ::
        (left.outline (depth + 1) ++ right.outline (depth + 1))
  | terminal => [indentation depth ++ terminal.render]

namespace Forest

/-- The lines of a tree.  The members of a group are one level deeper than the group. -/
def outline (forest : Forest) (depth : Nat) (node : Handle) : List String :=
  match forest.node? node with
  | some (.group members) =>
      (indentation depth ++ groupLabel) ::
        members.flatMap fun member => (forest.tree member).outline (depth + 1)
  | _ => (forest.tree node).outline depth

/-- The expression, with its value if it has one and is no assignment. -/
def headline (forest : Forest) (node : Handle) : String × Forest :=
  let text := forest.render node
  if (forest.node? node).any Node.isAssignment then (text, forest)
  else
    match forest.tryValue node with
    | (.ok (some value), forest) => (text ++ " = " ++ value.text, forest)
    | (_, forest) => (text, forest)

/-- The lines on expressions, and the forest after their evaluation. -/
def expressionLines (forest : Forest) : List Handle → List String × Forest
  | [] => ([], forest)
  | node :: nodes =>
      let (headline, forest) := forest.headline node
      let (lines, after) := forest.expressionLines nodes
      (headline :: forest.outline 1 node ++ lines, after)

end Forest

namespace Variables

def line (entry : Entry) : String :=
  "  " ++ entry.1 ++ " = " ++ (entry.2.elim "<no value>" Number.text)

def lines (table : Variables) : List String :=
  match table.entries with
  | [] => []
  | entries => "variables:" :: entries.map line

end Variables

/-- The report, and the sheet after the evaluation of its expressions. -/
def Sheet.report (sheet : Sheet) : String × Sheet :=
  let (lines, forest) := sheet.forest.expressionLines sheet.listed
  (String.join ((lines ++ forest.table.lines).map (· ++ "\n")), { sheet with forest })

end Worksheet
