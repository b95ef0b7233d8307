import Worksheet.Operator
import Worksheet.Variables.Basic

/-!
A forest of linked nodes over one table of variables.

Nodes name each other by handle: a binary node its operands, a group its members,
and every node its parent.  The values of variables are not in the nodes, so all
variables of one name share one value.
-/

namespace Worksheet

inductive Node where
  | constant (value : Number)
  | variable (name : String)
  | binary (operator : Operator) (left right : Option Handle)
  | group (members : List Handle)
deriving DecidableEq

inductive Side where
  | left
  | right
deriving DecidableEq, Repr

namespace Node

def isTerminal : Node → Bool
  | .constant _ | .variable _ => true
  | _ => false

def isVariable : Node → Bool
  | .variable _ => true
  | _ => false

def isGroup : Node → Bool
  | .group _ => true
  | _ => false

def operator? : Node → Option Operator
  | .binary operator _ _ => some operator
  | _ => none

def isAssignment (node : Node) : Bool :=
  node.operator? = some .assign

def children : Node → List Handle
  | .binary _ left right => left.toList ++ right.toList
  | .group members => members
  | _ => []

def operand? (node : Node) (side : Side) : Option Handle :=
  match node, side with
  | .binary _ left _, .left => left
  | .binary _ _ right, .right => right
  | _, _ => none

/-- The binary node with another operand at one side. -/
def withOperand (node : Node) (side : Side) (child : Option Handle) : Node :=
  match node, side with
  | .binary operator _ right, .left => .binary operator child right
  | .binary operator left _, .right => .binary operator left child
  | _, _ => node

def withMember (node : Node) (child : Handle) : Node :=
  match node with
  | .group members => .group (members ++ [child])
  | _ => node

/-- The node without any link to a child. -/
def without (node : Node) (child : Handle) : Node :=
  match node with
  | .binary operator left right =>
      .binary operator (left.filter (· ≠ child)) (right.filter (· ≠ child))
  | .group members => .group (members.filter (· ≠ child))
  | _ => node

end Node

structure Cell where
  node : Node
  parent : Option Handle
deriving DecidableEq

structure Forest where
  cells : Pool Cell
  table : Variables

namespace Forest

def empty : Forest := ⟨.empty, .empty⟩

def size (forest : Forest) : Nat :=
  forest.cells.size

def isLive (forest : Forest) (node : Handle) : Bool :=
  forest.cells.contains node

def nodes (forest : Forest) : List Handle :=
  forest.cells.handles

def node? (forest : Forest) (node : Handle) : Option Node :=
  (forest.cells.get? node).map Cell.node

def parent? (forest : Forest) (node : Handle) : Option Handle :=
  (forest.cells.get? node).bind Cell.parent

def node (forest : Forest) (handle : Handle) : Except Fault Node :=
  match forest.node? handle with
  | some node => .ok node
  | none => .error (.removed handle)

def parent (forest : Forest) (node : Handle) : Except Fault (Option Handle) :=
  match forest.cells.get? node with
  | some cell => .ok cell.parent
  | none => .error (.removed node)

def operands (forest : Forest) (binary : Handle) :
    Except Fault (Option Handle × Option Handle) :=
  match forest.node? binary with
  | some (.binary _ left right) => .ok (left, right)
  | some _ => .error (.notBinary binary)
  | none => .error (.removed binary)

def left (forest : Forest) (binary : Handle) : Except Fault (Option Handle) :=
  (forest.operands binary).map (·.1)

def right (forest : Forest) (binary : Handle) : Except Fault (Option Handle) :=
  (forest.operands binary).map (·.2)

def operator (forest : Forest) (binary : Handle) : Except Fault Operator :=
  match forest.node? binary with
  | some (.binary operator _ _) => .ok operator
  | some _ => .error (.notBinary binary)
  | none => .error (.removed binary)

def members (forest : Forest) (group : Handle) : Except Fault (List Handle) :=
  match forest.node? group with
  | some (.group members) => .ok members
  | some _ => .error (.notGroup group)
  | none => .error (.removed group)

def operand? (forest : Forest) (binary : Handle) (side : Side) : Option Handle :=
  (forest.node? binary).bind (·.operand? side)

def name? (forest : Forest) (node : Handle) : Option String :=
  match forest.node? node with
  | some (.variable name) => some name
  | _ => none

/-- The name of the variable that an assignment assigns to. -/
def target? (forest : Forest) (node : Handle) : Option String :=
  match forest.node? node with
  | some (.binary .assign (some left) _) => forest.name? left
  | _ => none

end Forest

end Worksheet
