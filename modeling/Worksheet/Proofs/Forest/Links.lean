import Worksheet.Forest.Link
import Worksheet.Proofs.Pool.FreeSlots
import Mathlib.Logic.Relation
import Mathlib.Order.WellFounded

/-!
# Linked forests

In a linked forest the two ends of every link agree, no node is below itself, and
groups and assignments stand only where they may.  Everything else about trees in a
forest rests on this.
-/

namespace Worksheet

namespace Node

@[simp]
theorem children_without (node : Node) (child : Handle) :
    (node.without child).children = node.children.filter (· ≠ child) := by
  have filtered (operand : Option Handle) :
      (operand.filter (· ≠ child)).toList = operand.toList.filter (· ≠ child) := by
    cases operand with
    | none => rfl
    | some other => by_cases same : other = child <;> simp [Option.filter, same]
  cases node with
  | binary operator left right =>
      rw [without, children, children, filtered, filtered, List.filter_append]
  | _ => simp [without, children]

theorem without_of_not_mem {node : Node} {child : Handle} (absent : child ∉ node.children) :
    node.without child = node := by
  cases node with
  | binary operator left right =>
      cases left <;> cases right <;> simp_all [without, children, Option.filter, eq_comm]
  | group members =>
      simp only [without, group.injEq, List.filter_eq_self, decide_eq_true_eq]
      exact fun member listed same => absent (same ▸ listed)
  | _ => rfl

@[simp]
theorem operator?_without (node : Node) (child : Handle) :
    (node.without child).operator? = node.operator? := by
  cases node <;> rfl

@[simp]
theorem isGroup_without (node : Node) (child : Handle) :
    (node.without child).isGroup = node.isGroup := by
  cases node <;> rfl

theorem isGroup_eq_true_iff {node : Node} :
    node.isGroup = true ↔ ∃ members, node = .group members := by
  cases node <;> simp [isGroup]

theorem operator?_eq_some_iff {node : Node} {operator : Operator} :
    node.operator? = some operator ↔ ∃ left right, node = .binary operator left right := by
  cases node <;> simp [operator?]

end Node

namespace Forest

/-- The node at `parent` lists `child`. -/
def IsChild (forest : Forest) (child parent : Handle) : Prop :=
  ∃ node, forest.node? parent = some node ∧ child ∈ node.children

/-- The first node is the second one or below it. -/
def Below (forest : Forest) : Handle → Handle → Prop :=
  Relation.ReflTransGen forest.IsChild

structure Linked (forest : Forest) : Prop where
  formed : forest.cells.WellFormed
  /-- A listed child is live, and its parent link leads back. -/
  parent?_of_child : ∀ child parent, forest.IsChild child parent →
    forest.parent? child = some parent
  /-- A parent is live and lists the node once. -/
  count_of_parent? : ∀ child parent, forest.parent? child = some parent →
    ∃ node, forest.node? parent = some node ∧ node.children.count child = 1
  acyclic : WellFounded forest.IsChild
  group_parent? : ∀ group members, forest.node? group = some (.group members) →
    forest.parent? group = none
  assignment_parent? : ∀ assignment left right parent,
    forest.node? assignment = some (.binary .assign left right) →
    forest.parent? assignment = some parent →
    ∃ members, forest.node? parent = some (.group members)
  assignment_target : ∀ assignment left right,
    forest.node? assignment = some (.binary .assign (some left) right) →
    ∃ name, forest.node? left = some (.variable name)

variable {forest : Forest}

/-! ### Reading a linked forest -/

theorem node?_eq_some_iff {node : Handle} {content : Node} :
    forest.node? node = some content ↔
      ∃ parent, forest.cells.get? node = some ⟨content, parent⟩ := by
  rw [node?, Option.map_eq_some_iff]
  constructor
  · rintro ⟨⟨_, parent⟩, found, rfl⟩
    exact ⟨parent, found⟩
  · rintro ⟨parent, found⟩
    exact ⟨_, found, rfl⟩

theorem parent?_eq_some_iff {child parent : Handle} :
    forest.parent? child = some parent ↔
      ∃ content, forest.cells.get? child = some ⟨content, some parent⟩ := by
  rw [parent?, Option.bind_eq_some_iff]
  constructor
  · rintro ⟨⟨content, _⟩, found, rfl⟩
    exact ⟨content, found⟩
  · rintro ⟨content, found⟩
    exact ⟨_, found, rfl⟩

theorem isLive_iff {node : Handle} :
    forest.isLive node = true ↔ ∃ content, forest.node? node = some content := by
  rw [isLive, Pool.contains, Option.isSome_iff_exists]
  simp [node?]

theorem node?_of_parent? {child parent : Handle} (linked : forest.parent? child = some parent) :
    ∃ content, forest.node? child = some content := by
  obtain ⟨content, found⟩ := parent?_eq_some_iff.mp linked
  exact ⟨content, node?_eq_some_iff.mpr ⟨_, found⟩⟩

theorem ne_of_fresh {node other : Handle} {content : Node}
    (located : forest.node? node = some content) (fresh : forest.node? other = none) :
    node ≠ other := by
  rintro rfl
  cases fresh.symm.trans located

theorem parent?_of_dead {node : Handle} (dead : forest.node? node = none) :
    forest.parent? node = none := by
  cases parent : forest.parent? node with
  | none => rfl
  | some above =>
      obtain ⟨content, found⟩ := node?_of_parent? parent
      rw [dead] at found
      cases found

theorem Linked.isChild_iff (linked : forest.Linked) {child parent : Handle} :
    forest.IsChild child parent ↔ forest.parent? child = some parent := by
  refine ⟨linked.parent?_of_child child parent, fun found => ?_⟩
  obtain ⟨node, located, count⟩ := linked.count_of_parent? child parent found
  exact ⟨node, located, List.count_pos_iff.mp (by omega)⟩

theorem Linked.not_mem_children (linked : forest.Linked) {child other : Handle} {node : Node}
    (located : forest.node? other = some node) (different : forest.parent? child ≠ some other) :
    child ∉ node.children :=
  fun member => different (linked.parent?_of_child child other ⟨node, located, member⟩)

theorem Linked.not_below_of_isChild (linked : forest.Linked) {child parent : Handle}
    (down : forest.IsChild child parent) : ¬forest.Below parent child := by
  intro up
  have cycle : Relation.TransGen forest.IsChild parent parent := .tail' up down
  exact linked.acyclic.transGen.irrefl.irrefl parent cycle

theorem Linked.eq_of_below_of_root (linked : forest.Linked) {low high : Handle}
    (below : forest.Below low high) (root : forest.parent? low = none) : low = high := by
  rcases below.cases_head with same | ⟨next, up, -⟩
  · exact same
  · rw [linked.parent?_of_child low next up] at root
    cases root

/-! ### Acyclicity of changed links -/

/-- A new link closes no cycle if its upper end is not below its lower one. -/
theorem acyclic_of_link {forest' : Forest} (acyclic : WellFounded forest.IsChild)
    {child parent : Handle} (apart : ¬forest.Below parent child)
    (step : ∀ low high, forest'.IsChild low high →
      forest.IsChild low high ∨ low = child ∧ high = parent) :
    WellFounded forest'.IsChild := by
  -- Nothing new is below the child, since the parent is not.
  have under (low : Handle) : forest.Below low child → Acc forest'.IsChild low := by
    induction low using acyclic.induction with
    | _ low inductionHypothesis =>
      intro below
      refine ⟨low, fun next down => ?_⟩
      rcases step next low down with old | ⟨-, rfl⟩
      · exact inductionHypothesis next old (.head old below)
      · exact absurd below apart
  refine ⟨fun high => ?_⟩
  induction high using acyclic.induction with
  | _ high inductionHypothesis =>
    refine ⟨high, fun next down => ?_⟩
    rcases step next high down with old | ⟨rfl, -⟩
    · exact inductionHypothesis next old
    · exact under next .refl

theorem acyclic_of_subset {forest' : Forest} (acyclic : WellFounded forest.IsChild)
    (step : ∀ low high, forest'.IsChild low high → forest.IsChild low high) :
    WellFounded forest'.IsChild :=
  Subrelation.wf (step _ _ ·) acyclic

theorem Linked.of_cells_eq {forest' : Forest} (linked : forest.Linked)
    (same : forest'.cells = forest.cells) : forest'.Linked := by
  obtain ⟨cells, table⟩ := forest
  obtain ⟨cells', table'⟩ := forest'
  cases same
  exact ⟨linked.1, linked.2, linked.3, linked.4, linked.5, linked.6, linked.7⟩

theorem linked_of_no_cells {cells : Pool Cell} (formed : cells.WellFormed)
    (none : ∀ node, cells.get? node = none) (table : Variables) :
    (⟨cells, table⟩ : Forest).Linked := by
  have dead (node : Handle) : (⟨cells, table⟩ : Forest).node? node = Option.none := by
    simp [node?, none]
  have alone (node : Handle) : (⟨cells, table⟩ : Forest).parent? node = Option.none :=
    parent?_of_dead (dead node)
  refine ⟨formed, ?_, ?_, ⟨fun high => ⟨high, ?_⟩⟩, ?_, ?_, ?_⟩
  · rintro child parent ⟨node, located, -⟩
    simp [dead] at located
  · intro child parent found
    simp [alone] at found
  · rintro low ⟨node, located, -⟩
    simp [dead] at located
  · intro group members located
    simp [dead] at located
  · intro assignment left right parent located
    simp [dead] at located
  · intro assignment left right located
    simp [dead] at located

end Forest

end Worksheet
