import Mathlib
import Worksheet.Proofs.Forest.Edits

/-!
# Operations on forests

Every operation keeps a forest linked, whatever it is given and whether or not it is
refused.  Hence a forest that is only changed by operations stays linked throughout.
-/

namespace Worksheet

inductive Variables.Call where
  | resolve (name : String) (provided : Option Number)
  | assign (name : String) (provided : Option Number)
  | declare (name : String)
  | clear (name : String)
  | erase (name : String)
  | clearAll
  | reset

def Variables.Call.perform (table : Variables) : Call → Except Fault Variables
  | resolve name provided => (table.resolve name provided).map (·.2)
  | assign name provided => table.assign name provided
  | declare name => .ok (table.declare name)
  | clear name => .ok (table.clear name)
  | erase name => .ok (table.erase name)
  | clearAll => .ok table.clearAll
  | reset => .ok .empty

namespace Forest

inductive Operation where
  | constant (value : Number)
  | variable (name : String) (value : Option Number)
  | binary (operator : Operator) (left right : Option Handle)
  | assignment (target source : Handle)
  | emptyGroup
  | group (members : List Handle)
  | graft (expr : Expr)
  | setLeft (binary : Handle) (child : Option Handle)
  | setRight (binary : Handle) (child : Option Handle)
  | setParent (child : Handle) (parent : Option Handle)
  | groupPush (group child : Handle)
  | groupRemove (group child : Handle)
  | groupClear (group : Handle)
  | remove (node : Handle)
  | clear
  | value (node : Handle)
  | tryValue (node : Handle)
  | table (call : Variables.Call)

/-- What an operation answers, with the handle that comes with it if there is one. -/
abbrev Answer := Except Fault (Option Handle)

/-- A result that comes with its forest, whether or not it is a fault. -/
def settled (outcome : Except Fault Handle × Forest) : Answer × Forest :=
  (outcome.1.map some, outcome.2)

/-- A forest that stays as it was on a fault. -/
def kept (forest : Forest) : Except Fault Forest → Answer × Forest
  | .error fault => (.error fault, forest)
  | .ok forest => (.ok none, forest)

def perform (forest : Forest) : Operation → Answer × Forest
  | .constant value => settled ((forest.addConstant value).map .ok id)
  | .variable name value =>
      match forest.addVariable name value with
      | .error fault => (.error fault, forest)
      | .ok (node, forest) => (.ok (some node), forest)
  | .binary operator left right => settled (forest.addBinary operator left right)
  | .assignment target source => settled (forest.addAssignment target source)
  | .emptyGroup => settled (forest.addEmptyGroup.map .ok id)
  | .group members => settled (forest.addGroup members)
  | .graft expr => settled (forest.graft expr)
  | .setLeft binary child => kept forest (forest.setLeft binary child)
  | .setRight binary child => kept forest (forest.setRight binary child)
  | .setParent child parent => kept forest (forest.setParent child parent)
  | .groupPush group child => kept forest (forest.groupPush group child)
  | .groupRemove group child => kept forest ((forest.groupRemove group child).map (·.2))
  | .groupClear group => kept forest (forest.groupClear group)
  | .remove node => kept forest (forest.remove node)
  | .clear => (.ok none, forest.clear)
  | .value node => ((forest.value node).1.map fun _ => none, (forest.value node).2)
  | .tryValue node => ((forest.tryValue node).1.map fun _ => none, (forest.tryValue node).2)
  | .table call =>
      kept forest ((call.perform forest.table).map fun table => { forest with table })

def run (forest : Forest) (operations : List Operation) : Forest :=
  operations.foldl (fun forest operation => (forest.perform operation).2) forest

/-- The forest can come about by operations, over whatever variables. -/
def Reachable (forest : Forest) : Prop :=
  ∃ table operations, (⟨.empty, table⟩ : Forest).run operations = forest

variable {forest : Forest}

theorem linked_empty (table : Variables) : (⟨.empty, table⟩ : Forest).Linked :=
  linked_of_no_cells Pool.wellFormed_empty Pool.get?_empty table

theorem kept_induction {motive : Forest → Prop} {outcome : Except Fault Forest}
    (refused : motive forest) (done : ∀ forest', outcome = .ok forest' → motive forest') :
    motive (kept forest outcome).2 := by
  cases outcome with
  | error fault => exact refused
  | ok forest' => exact done forest' rfl

theorem Linked.kept (linked : forest.Linked) {outcome : Except Fault Forest}
    (step : ∀ forest', outcome = .ok forest' → forest'.Linked) :
    (Forest.kept forest outcome).2.Linked :=
  kept_induction linked step

/-- One operation keeps the forest linked, also if it is refused. -/
theorem Linked.perform (linked : forest.Linked) (operation : Operation) :
    (forest.perform operation).2.Linked := by
  cases operation with
  | constant value => exact linked.allocate rfl
  | «variable» name value =>
      rw [Forest.perform]
      split
      next => exact linked
      next done => exact linked.addVariable done
  | binary operator left right => exact linked.addBinary operator left right
  | assignment target source => exact linked.addBinary .assign (some target) (some source)
  | emptyGroup => exact linked.allocate rfl
  | group members => exact linked.addGroup members
  | graft expr => exact linked.graft expr
  | setLeft binary child => exact linked.kept fun _ => linked.setLeft
  | setRight binary child => exact linked.kept fun _ => linked.setRight
  | setParent child parent => exact linked.kept fun _ => linked.setParent
  | groupPush group child => exact linked.kept fun _ => linked.groupPush
  | groupRemove group child =>
      refine linked.kept fun forest' done => ?_
      obtain ⟨answer, removed, rfl⟩ := map_eq_ok_iff.mp done
      exact linked.groupRemove removed
  | groupClear group => exact linked.kept fun _ => linked.groupClear
  | remove node => exact linked.kept fun _ => linked.remove
  | clear => exact linked.clear
  | value node =>
      obtain ⟨value, table, valued⟩ := forest.value_eq node
      rw [Forest.perform, valued]
      exact linked.withTable table
  | tryValue node =>
      obtain ⟨value, table, valued⟩ := forest.tryValue_eq node
      rw [Forest.perform, valued]
      exact linked.withTable table
  | table call =>
      refine linked.kept fun forest' done => ?_
      obtain ⟨table, -, rfl⟩ := map_eq_ok_iff.mp done
      exact linked.withTable table

theorem Linked.run (linked : forest.Linked) (operations : List Operation) :
    (forest.run operations).Linked := by
  induction operations generalizing forest with
  | nil => exact linked
  | cons operation rest inductionHypothesis =>
      exact inductionHypothesis (linked.perform operation)

theorem Reachable.linked (reachable : forest.Reachable) : forest.Linked := by
  obtain ⟨table, operations, rfl⟩ := reachable
  exact (linked_empty table).run operations

theorem mem_nodes_iff {node : Handle} : node ∈ forest.nodes ↔ forest.isLive node = true := by
  rw [nodes, Pool.mem_handles_iff, isLive, Pool.contains, Option.isSome_iff_exists]

/-- Whatever has been done to a forest, refused or not: its links both ways agree, without a cycle;
groups are below nothing, and assignments below groups only, with variables as their targets; and
every slot that is not offered again holds a node. -/
theorem Reachable.consistent (reachable : forest.Reachable) :
    (∀ parent node, forest.node? parent = some node → ∀ child ∈ node.children,
      forest.isLive child = true ∧ forest.parent? child = some parent) ∧
    (∀ child parent, forest.parent? child = some parent → forest.isLive child = true ∧
      ∃ node, forest.node? parent = some node ∧ node.children.count child = 1) ∧
    (∀ node, ¬Relation.TransGen forest.IsChild node node) ∧
    (∀ group members, forest.node? group = some (.group members) →
      forest.parent? group = none) ∧
    (∀ assignment left right, forest.node? assignment = some (.binary .assign left right) →
      (∀ parent, forest.parent? assignment = some parent →
        ∃ members, forest.node? parent = some (.group members)) ∧
      ∀ target, left = some target → ∃ name, forest.node? target = some (.variable name)) ∧
    (forest.cells.free.Nodup ∧ ∀ index, index ∈ forest.cells.free ↔
      ∃ generation, forest.cells.slots[index]? = some ⟨generation, none⟩) ∧
    forest.nodes.Nodup ∧ (∀ node, node ∈ forest.nodes ↔ forest.isLive node = true) ∧
      forest.size = forest.nodes.length := by
  have linked := reachable.linked
  refine ⟨?_, ?_, ?_, linked.group_parent?, ?_, ?_, ?_⟩
  · intro parent node located child member
    have above := linked.parent?_of_child child parent ⟨node, located, member⟩
    exact ⟨isLive_iff.mpr (node?_of_parent? above), above⟩
  · intro child parent above
    exact ⟨isLive_iff.mpr (node?_of_parent? above), linked.count_of_parent? child parent above⟩
  · exact linked.acyclic.transGen.irrefl.irrefl
  · intro assignment left right located
    refine ⟨fun parent => linked.assignment_parent? assignment left right parent located, ?_⟩
    rintro target rfl
    exact linked.assignment_target assignment target right located
  · exact ⟨linked.formed.nodup_free, linked.formed.mem_free_iff⟩
  · exact ⟨Pool.nodup_handles forest.cells, fun node => mem_nodes_iff,
      Pool.size_eq_length_handles linked.formed⟩

/-- An assignment loses its right operand to a sum, goes into a group, and survives the
removal of the sum. -/
theorem Reachable.consistent_after_moves :
    let forest := (⟨.empty, .empty⟩ : Forest).run
      [.variable "x" none, .constant (.int 2), .assignment ⟨0, 0⟩ ⟨1, 0⟩, .constant (.int 3),
        .binary .add (some ⟨1, 0⟩) (some ⟨3, 0⟩), .group [⟨2, 0⟩], .remove ⟨4, 0⟩, .remove ⟨4, 0⟩]
    forest.Reachable ∧ forest.node? ⟨2, 0⟩ = some (.binary .assign (some ⟨0, 0⟩) none) ∧
      forest.parent? ⟨2, 0⟩ = some ⟨5, 0⟩ ∧ forest.nodes = [⟨0, 0⟩, ⟨2, 0⟩, ⟨5, 0⟩] ∧
      forest.size = forest.nodes.length := by
  refine ⟨⟨_, _, rfl⟩, ?_, ?_, ?_, ?_⟩
  · cbv
  · cbv
  · cbv
  · exact (Reachable.consistent ⟨_, _, rfl⟩).2.2.2.2.2.2.2.2

end Forest

end Worksheet
