import Worksheet.Forest.Link

/-!
The operations on a forest.

An operation that is refused returns a fault.  Where the result is an `Except`
around a forest, a refusal leaves everything as it was; where it is a pair, the
forest that comes with a fault may have used up the generation of a slot, and
looking for the value to assign may have evaluated an assignment.
-/

namespace Worksheet

/-- Why a node may not be a child of another one, going by their contents alone. -/
def Node.misplacement? (child parent : Node) : Option Misplacement :=
  if child.isGroup then some .groupBelow
  else if parent.isTerminal then some .belowTerminal
  else if child.isAssignment && parent.operator?.isSome then some .assignmentBelow
  else none

namespace Forest

/-- Refuses links that break the rules for nodes or close a cycle. -/
def checkChild (forest : Forest) (parent child : Handle) : Except Fault Unit := do
  let parentNode ← forest.node parent
  let childNode ← forest.node child
  match childNode.misplacement? parentNode with
  | some why => .error (.misplaced why)
  | none => if forest.contains child parent then .error .cycle else .ok ()

def checkOperand (forest : Forest) (parent : Handle) (child : Option Handle) :
    Except Fault Unit :=
  match child with
  | none => .ok ()
  | some child => forest.checkChild parent child

/-- Refuses every target of an assignment but a variable. -/
def checkTarget (forest : Forest) (target : Handle) : Except Fault Unit := do
  if (← forest.node target).isVariable then .ok () else .error .invalidTarget

def assignedValue (forest : Forest) (right : Option Handle) :
    Except Fault (Option Number) × Forest :=
  match right with
  | none => (.ok none, forest)
  | some right => forest.tryValue right

/-! ### Making nodes -/

def addConstant (forest : Forest) (value : Number) : Handle × Forest :=
  forest.allocate (.constant value)

/-- A variable node; its name is registered, and its value settled. -/
def addVariable (forest : Forest) (name : String) (value : Option Number) :
    Except Fault (Handle × Forest) := do
  let (_, table) ← forest.table.resolve name value
  return { forest with table }.allocate (.variable name)

def addEmptyGroup (forest : Forest) : Handle × Forest :=
  forest.allocate (.group [])

/-- The value to be stored by a new binary node, once its target is found fit. -/
def prepare (forest : Forest) (operator : Operator) (left right : Option Handle) :
    Except Fault (Option Number) × Forest :=
  if operator = .assign then
    match left.elim (.ok ()) forest.checkTarget with
    | .error fault => (.error fault, forest)
    | .ok () => forest.assignedValue right
  else (.ok none, forest)

def linkBoth (forest : Forest) (operator : Operator) (binary : Handle)
    (left right : Option Handle) (value : Option Number) : Forest :=
  let linked := (forest.link binary .left left).link binary .right right
  if operator = .assign then linked.store binary value else linked

def addBinary (forest : Forest) (operator : Operator) (left right : Option Handle) :
    Except Fault Handle × Forest :=
  if left.isSome && left = right then (.error (.misplaced .operandTwice), forest)
  else
    match forest.prepare operator left right with
    | (.error fault, forest) => (.error fault, forest)
    | (.ok value, forest) =>
        let (node, forest) := forest.allocate (.binary operator none none)
        match (do forest.checkOperand node left; forest.checkOperand node right) with
        | .error fault => (.error fault, forest.release node)
        | .ok () => (.ok node, forest.linkBoth operator node left right value)

def addAssignment (forest : Forest) (target source : Handle) : Except Fault Handle × Forest :=
  forest.addBinary .assign (some target) (some source)

def addGroup (forest : Forest) (members : List Handle) : Except Fault Handle × Forest :=
  let (node, forest) := forest.addEmptyGroup
  match members.forM (forest.checkChild node) with
  | .error fault => (.error fault, forest.release node)
  | .ok () => (.ok node, members.foldl (fun forest member => forest.adopt node member) forest)

/-! ### Changing binary nodes -/

/-- Replaces the left operand.  The target of an assignment has to be a variable,
and a new one takes over the value of the right operand if there is one. -/
def setLeft (forest : Forest) (binary : Handle) (child : Option Handle) :
    Except Fault Forest := do
  if (← forest.operator binary) = .assign then
    child.elim (.error .invalidTarget) forest.checkTarget
    forest.checkOperand binary child
    let (value, forest) := forest.assignedValue (← forest.right binary)
    let linked := forest.link binary .left child
    match ← value with
    | none => return linked
    | some value => return linked.store binary (some value)
  else
    forest.checkOperand binary child
    return forest.link binary .left child

/-- Replaces the right operand.  The target of an assignment takes over its
value, or loses its own if there is none. -/
def setRight (forest : Forest) (binary : Handle) (child : Option Handle) :
    Except Fault Forest := do
  if (← forest.operator binary) = .assign then
    forest.checkOperand binary child
    let (value, forest) := forest.assignedValue child
    let value ← value
    return (forest.link binary .right child).store binary value
  else
    forest.checkOperand binary child
    return forest.link binary .right child

/-! ### Changing groups -/

def groupPush (forest : Forest) (group child : Handle) : Except Fault Forest := do
  let _ ← forest.members group
  forest.checkChild group child
  return forest.adopt group child

/-- Takes a member out of a group; the answer tells whether it was one. -/
def groupRemove (forest : Forest) (group child : Handle) : Except Fault (Bool × Forest) := do
  let _ ← forest.members group
  if (← forest.parent child) = some group then return (true, forest.detach child)
  else return (false, forest)

/-- Takes every member out of a group; other nodes have no members. -/
def detachMembers (forest : Forest) (group : Handle) : Forest :=
  match forest.node? group with
  | some (.group members) => members.foldl detach forest
  | _ => forest

def groupClear (forest : Forest) (group : Handle) : Except Fault Forest := do
  let _ ← forest.members group
  return forest.detachMembers group

/-! ### Moving and removing nodes -/

/-- Moves a node to the first free place below another, or away from its parent.
A group is never moved, not even away. -/
def setParent (forest : Forest) (child : Handle) (parent : Option Handle) :
    Except Fault Forest := do
  if (← forest.node child).isGroup then .error (.misplaced .groupBelow)
  match parent with
  | none => return forest.detach child
  | some parent =>
      forest.checkChild parent child
      if (← forest.node parent).isGroup then forest.groupPush parent child
      else
        match ← forest.operands parent with
        | (none, _) => forest.setLeft parent (some child)
        | (_, none) => forest.setRight parent (some child)
        | _ => .error (.misplaced .operandsTaken)

/-- Takes a node off its parent and frees it, with all nodes below it. -/
def removeTree (forest : Forest) (node : Handle) : Forest :=
  let detached := forest.detach node
  (detached.sweep node).foldl release detached

def remove (forest : Forest) (node : Handle) : Except Fault Forest := do
  let _ ← forest.node node
  return forest.removeTree node

/-- Frees every node.  The variables stay. -/
def clear (forest : Forest) : Forest :=
  { forest with cells := forest.cells.clear }

/-! ### Grafting -/

/-- Makes the nodes of an expression.  Nothing is left of them on failure. -/
def graft (forest : Forest) : Expr → Except Fault Handle × Forest
  | .number value =>
      let (node, forest) := forest.addConstant value
      (.ok node, forest)
  | .variable name =>
      match forest.addVariable name none with
      | .error fault => (.error fault, forest)
      | .ok (node, forest) => (.ok node, forest)
  | .binary operator left right =>
      match forest.graft left with
      | (.error fault, forest) => (.error fault, forest)
      | (.ok first, forest) =>
          match forest.graft right with
          | (.error fault, forest) => (.error fault, forest.removeTree first)
          | (.ok second, forest) =>
              match forest.addBinary operator (some first) (some second) with
              | (.error fault, forest) =>
                  (.error fault, (forest.removeTree first).removeTree second)
              | done => done

end Forest

end Worksheet
