import Worksheet.Forest.Value

/-!
Links between nodes: taking a node off its parent, and putting it below another.

The steps here carry out a change without asking whether it is allowed.  They
keep both ends of a link in step, and they keep the target of an assignment in
step with its right operand: an assignment that loses its right operand takes the
value of its target away.
-/

namespace Worksheet

namespace Forest

def allocate (forest : Forest) (node : Node) : Handle × Forest :=
  let (handle, cells) := forest.cells.insert ⟨node, none⟩
  (handle, { forest with cells })

def release (forest : Forest) (node : Handle) : Forest :=
  { forest with cells := forest.cells.erase node }

def changeNode (forest : Forest) (node : Handle) (change : Node → Node) : Forest :=
  { forest with cells := forest.cells.modify node fun cell => { cell with node := change cell.node } }

def setParentLink (forest : Forest) (node : Handle) (parent : Option Handle) : Forest :=
  { forest with cells := forest.cells.modify node fun cell => { cell with parent } }

/-- Gives the target of an assignment a value, or takes its value away. -/
def store (forest : Forest) (assignment : Handle) (value : Option Number) : Forest :=
  match forest.target? assignment with
  | none => forest
  | some name => { forest with table := forest.table.put name value }

/-- Whether the node is the right operand of the assignment. -/
def isAssigned (forest : Forest) (assignment node : Handle) : Bool :=
  match forest.node? assignment with
  | some (.binary .assign _ right) => right = some node
  | _ => false

def detach (forest : Forest) (node : Handle) : Forest :=
  match forest.parent? node with
  | none => forest
  | some parent =>
      let detached := (forest.changeNode parent (·.without node)).setParentLink node none
      if forest.isAssigned parent node then detached.store parent none else detached

/-- Makes the parent of an operand forget it. -/
def orphan (forest : Forest) (operand : Option Handle) : Forest :=
  match operand with
  | none => forest
  | some node => forest.setParentLink node none

/-- Puts a detached node, or nothing, in the place of an operand. -/
def place (forest : Forest) (binary : Handle) (side : Side) (child : Option Handle) : Forest :=
  let placed := (forest.orphan (forest.operand? binary side)).changeNode binary
    (·.withOperand side child)
  match child with
  | none => placed
  | some node => placed.setParentLink node (some binary)

/-- Moves a node, or nothing, to the place of an operand. -/
def link (forest : Forest) (binary : Handle) (side : Side) (child : Option Handle) : Forest :=
  match child with
  | none => forest.place binary side none
  | some node =>
      if forest.parent? node = some binary ∧ forest.operand? binary side = some node then forest
      else (forest.detach node).place binary side (some node)

/-- Moves a node to the end of a group. -/
def adopt (forest : Forest) (group child : Handle) : Forest :=
  ((forest.detach child).changeNode group (·.withMember child)).setParentLink child (some group)

end Forest

end Worksheet
