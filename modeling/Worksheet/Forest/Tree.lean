import Worksheet.Expr.Basic
import Worksheet.Forest.Basic

/-!
The tree behind a node, read off the links.

A tree keeps the handle of every node, and it shows operands that are not set and
handles behind which there is no expression.  Reading hides each node while its
operands are read; since that leaves fewer nodes, reading ends whatever the links
are.
-/

namespace Worksheet

inductive Terminals where
  | all
  | constants
  | names
deriving DecidableEq, Repr

def Terminals.name : Terminals → String
  | all => "All"
  | constants => "Constants"
  | names => "Variables"

inductive Tree where
  /-- An operand that is not set. -/
  | vacant
  /-- A handle without an expression: removed, or a group. -/
  | lost (id : Handle)
  | constant (id : Handle) (value : Number)
  | variable (id : Handle) (name : String)
  | binary (id : Handle) (operator : Operator) (left right : Tree)
deriving DecidableEq

namespace Tree

def ofCells (cells : Pool Cell) (id : Handle) : Tree :=
  match _found : cells.get? id with
  | none => .lost id
  | some cell =>
      match cell.node with
      | .constant value => .constant id value
      | .variable name => .variable id name
      | .group _ => .lost id
      | .binary operator left right =>
          .binary id operator
            (match left with
              | none => .vacant
              | some child => ofCells (cells.hide id) child)
            (match right with
              | none => .vacant
              | some child => ofCells (cells.hide id) child)
termination_by cells.occupied
decreasing_by all_goals exact Pool.occupied_hide_lt _found

/-- The handles of the tree in the order in which a stack of pending nodes gives
them out: a node, then its right operand's tree, then its left one's. -/
def sweep : Tree → List Handle
  | .vacant => []
  | .lost id | .constant id _ | .variable id _ => [id]
  | .binary id _ left right => id :: (right.sweep ++ left.sweep)

def isVacant : Tree → Bool
  | .vacant => true
  | _ => false

def operator? : Tree → Option Operator
  | .binary _ operator _ _ => some operator
  | _ => none

def names : Tree → List String
  | .variable _ name => [name]
  | .binary _ _ left right => left.names ++ right.names
  | _ => []

def constants : Tree → List Number
  | .constant _ value => [value]
  | .binary _ _ left right => left.constants ++ right.constants
  | _ => []

def holds (terminals : Terminals) (tree : Tree) : Bool :=
  match terminals with
  | .all => !tree.names.isEmpty || !tree.constants.isEmpty
  | .constants => !tree.constants.isEmpty
  | .names => !tree.names.isEmpty

/-- Equality of shape, operators and names, with constants compared as numbers.
Handles do not count, except that a lost one equals nothing. -/
def agrees : Tree → Tree → Bool
  | .vacant, .vacant => true
  | .constant _ left, .constant _ right => left.agrees right
  | .variable _ left, .variable _ right => left == right
  | .binary _ operator left right, .binary _ operator' left' right' =>
      operator == operator' && left.agrees left' && right.agrees right'
  | _, _ => false

/-- The expression of a tree in which every operand is set. -/
def expr? : Tree → Option Expr
  | .constant _ value => some (.number value)
  | .variable _ name => some (.variable name)
  | .binary _ operator left right =>
      left.expr?.bind fun left => right.expr?.map fun right => .binary operator left right
  | _ => none

end Tree

namespace Forest

def tree (forest : Forest) (node : Handle) : Tree :=
  Tree.ofCells forest.cells node

/-- The trees of a group's members, or the one tree of an expression node. -/
def trees (forest : Forest) (node : Handle) : List Tree :=
  match forest.node? node with
  | some (.group members) => members.map forest.tree
  | _ => [forest.tree node]

/-- The node and all nodes below it, each before those below itself, and later
children before earlier ones. -/
def sweep (forest : Forest) (node : Handle) : List Handle :=
  match forest.node? node with
  | some (.group members) => node :: members.reverse.flatMap fun member => (forest.tree member).sweep
  | _ => (forest.tree node).sweep

/-- Whether `other` is the node itself or below it. -/
def contains (forest : Forest) (node other : Handle) : Bool :=
  other ∈ forest.sweep node

def containsVariable (forest : Forest) (node : Handle) (name : String) : Bool :=
  (forest.trees node).any fun tree => name ∈ tree.names

def containsTerminal (forest : Forest) (node : Handle) (terminals : Terminals) : Bool :=
  (forest.trees node).any fun tree => tree.holds terminals

/-- The names of the variables at or below the node, in order and each once. -/
def variableNames (forest : Forest) (node : Handle) : List String :=
  (((forest.trees node).flatMap Tree.names).foldl Variables.declare .empty).names

/-- Equality of what the nodes stand for, whatever their handles. -/
def agrees (forest : Forest) (node other : Handle) : Bool :=
  match forest.node? node, forest.node? other with
  | some (.group members), some (.group members') =>
      members.length == members'.length &&
        (members.zip members').all fun (member, member') =>
          (forest.tree member).agrees (forest.tree member')
  | _, _ => (forest.tree node).agrees (forest.tree other)

end Forest

end Worksheet
