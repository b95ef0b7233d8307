import Worksheet.Forest.Edit
import Worksheet.Proofs.Forest.Trees

/-!
# Moving nodes

What a forest shows after a node has been made, freed, taken off its parent or put
below another one, and why the forest stays linked when that is allowed.
-/

namespace Worksheet

namespace Node

/-- The node without its links. -/
def bare : Node → Node
  | .binary operator _ _ => .binary operator none none
  | .group _ => .group []
  | node => node

@[simp]
theorem bare_without (node : Node) (child : Handle) : (node.without child).bare = node.bare := by
  cases node <;> rfl

@[simp]
theorem bare_withOperand (node : Node) (side : Side) (child : Option Handle) :
    (node.withOperand side child).bare = node.bare := by
  cases node <;> cases side <;> rfl

@[simp]
theorem bare_withMember (node : Node) (child : Handle) :
    (node.withMember child).bare = node.bare := by
  cases node <;> rfl

theorem isGroup_bare (node : Node) : node.bare.isGroup = node.isGroup := by
  cases node <;> rfl

theorem operator?_bare (node : Node) : node.bare.operator? = node.operator? := by
  cases node <;> rfl

theorem isVariable_bare (node : Node) : node.bare.isVariable = node.isVariable := by
  cases node <;> rfl

theorem isAssignment_bare (node : Node) : node.bare.isAssignment = node.isAssignment := by
  rw [isAssignment, operator?_bare, isAssignment]

theorem bare_eq_variable_iff {node : Node} {name : String} :
    node.bare = .variable name ↔ node = .variable name := by
  cases node <;> simp [bare]

theorem isVariable_eq_true_iff {node : Node} :
    node.isVariable = true ↔ ∃ name, node = .variable name := by
  cases node <;> simp [isVariable]

theorem isAssignment_eq_true_iff {node : Node} :
    node.isAssignment = true ↔ ∃ left right, node = .binary .assign left right := by
  rw [isAssignment, decide_eq_true_eq, operator?_eq_some_iff]

end Node

namespace Forest

variable {forest : Forest}

/-- A change of links alone leaves every node where it was. -/
theorem exists_of_bare {forest' : Forest} {other : Handle} {node : Node}
    (same : (forest'.node? other).map Node.bare = (forest.node? other).map Node.bare)
    (here : forest'.node? other = some node) :
    ∃ before, forest.node? other = some before ∧ node.bare = before.bare := by
  rw [here, Option.map_some] at same
  obtain ⟨before, located, bare⟩ := Option.map_eq_some_iff.mp same.symm
  exact ⟨before, located, bare.symm⟩

section SameContents

variable {forest' : Forest} {other : Handle}

theorem exists_group_of_bare
    (same : (forest'.node? other).map Node.bare = (forest.node? other).map Node.bare)
    {members : List Handle} (here : forest'.node? other = some (.group members)) :
    ∃ before, forest.node? other = some (.group before) := by
  obtain ⟨node, located, bare⟩ := exists_of_bare same here
  have isGroup : node.isGroup = true := by
    rw [← node.isGroup_bare, ← bare]
    rfl
  obtain ⟨before, rfl⟩ := Node.isGroup_eq_true_iff.mp isGroup
  exact ⟨before, located⟩

theorem exists_assignment_of_bare
    (same : (forest'.node? other).map Node.bare = (forest.node? other).map Node.bare)
    {left right : Option Handle} (here : forest'.node? other = some (.binary .assign left right)) :
    ∃ first second, forest.node? other = some (.binary .assign first second) := by
  obtain ⟨node, located, bare⟩ := exists_of_bare same here
  have isAssignment : node.isAssignment = true := by
    rw [← node.isAssignment_bare, ← bare]
    rfl
  obtain ⟨first, second, rfl⟩ := Node.isAssignment_eq_true_iff.mp isAssignment
  exact ⟨first, second, located⟩

theorem variable_of_bare
    (same : (forest'.node? other).map Node.bare = (forest.node? other).map Node.bare)
    {name : String} (here : forest'.node? other = some (.variable name)) :
    forest.node? other = some (.variable name) := by
  obtain ⟨node, located, bare⟩ := exists_of_bare same here
  rw [located, Node.bare_eq_variable_iff.mp bare.symm]

end SameContents

/-! ### What is found after a step -/

theorem node?_changeNode (forest : Forest) (node other : Handle) (change : Node → Node) :
    (forest.changeNode node change).node? other =
      if other = node then (forest.node? node).map change else forest.node? other := by
  rw [node?, changeNode, Pool.get?_modify]
  split
  next => cases found : forest.cells.get? node <;> simp [node?, found]
  next => rfl

@[simp]
theorem parent?_changeNode (forest : Forest) (node other : Handle) (change : Node → Node) :
    (forest.changeNode node change).parent? other = forest.parent? other := by
  rw [parent?, changeNode, Pool.get?_modify]
  split
  next same => cases found : forest.cells.get? node <;> simp [parent?, same, found]
  next => rfl

@[simp]
theorem node?_setParentLink (forest : Forest) (node other : Handle) (parent : Option Handle) :
    (forest.setParentLink node parent).node? other = forest.node? other := by
  rw [node?, setParentLink, Pool.get?_modify]
  split
  next same => cases found : forest.cells.get? node <;> simp [node?, same, found]
  next => rfl

theorem parent?_setParentLink (forest : Forest) (node other : Handle) (parent : Option Handle) :
    (forest.setParentLink node parent).parent? other =
      if other = node then (forest.node? node).bind fun _ => parent else forest.parent? other := by
  rw [parent?, setParentLink, Pool.get?_modify]
  split
  next => cases found : forest.cells.get? node <;> simp [node?, found]
  next => rfl

@[simp]
theorem cells_store (forest : Forest) (assignment : Handle) (value : Option Number) :
    (forest.store assignment value).cells = forest.cells := by
  unfold store
  split <;> rfl

@[simp]
theorem node?_store (forest : Forest) (assignment other : Handle) (value : Option Number) :
    (forest.store assignment value).node? other = forest.node? other := by
  rw [node?, cells_store, node?]

@[simp]
theorem parent?_store (forest : Forest) (assignment other : Handle) (value : Option Number) :
    (forest.store assignment value).parent? other = forest.parent? other := by
  rw [parent?, cells_store, parent?]

theorem node?_allocate (formed : forest.cells.WellFormed) (node : Node) (other : Handle) :
    (forest.allocate node).2.node? other =
      if other = (forest.allocate node).1 then some node else forest.node? other := by
  change ((forest.cells.insert ⟨node, none⟩).2.get? other).map Cell.node = _
  rw [Pool.get?_insert formed]
  change _ = if other = (forest.cells.insert ⟨node, none⟩).1 then _ else _
  split <;> rfl

theorem node?_allocate_handle (formed : forest.cells.WellFormed) (node : Node) :
    forest.node? (forest.allocate node).1 = none := by
  change (forest.cells.get? (forest.cells.insert ⟨node, none⟩).1).map Cell.node = none
  rw [Pool.get?_insert_handle formed, Option.map_none]

theorem node?_allocate_self (formed : forest.cells.WellFormed) (node : Node) :
    (forest.allocate node).2.node? (forest.allocate node).1 = some node := by
  rw [node?_allocate formed, if_pos rfl]

theorem node?_allocate_of_live (formed : forest.cells.WellFormed) (node : Node) {other : Handle}
    {content : Node} (located : forest.node? other = some content) :
    (forest.allocate node).2.node? other = some content := by
  rw [node?_allocate formed, if_neg (ne_of_fresh located (node?_allocate_handle formed node)),
    located]

theorem parent?_allocate (formed : forest.cells.WellFormed) (node : Node) (other : Handle) :
    (forest.allocate node).2.parent? other = forest.parent? other := by
  have dead := parent?_of_dead (node?_allocate_handle formed node)
  change ((forest.cells.insert ⟨node, none⟩).2.get? other).bind Cell.parent = _
  rw [Pool.get?_insert formed]
  split
  next same =>
    rw [same]
    exact dead.symm
  next => rfl

theorem cells_releaseAll (forest : Forest) (nodes : List Handle) :
    (nodes.foldl release forest).cells = nodes.foldl Pool.erase forest.cells := by
  induction nodes generalizing forest with
  | nil => rfl
  | cons node rest inductionHypothesis => exact inductionHypothesis (forest.release node)

theorem table_releaseAll (forest : Forest) (nodes : List Handle) :
    (nodes.foldl release forest).table = forest.table := by
  induction nodes generalizing forest with
  | nil => rfl
  | cons node rest inductionHypothesis => exact inductionHypothesis (forest.release node)

theorem node?_releaseAll (forest : Forest) (nodes : List Handle) (other : Handle) :
    (nodes.foldl release forest).node? other =
      if other ∈ nodes then none else forest.node? other := by
  rw [node?, cells_releaseAll, Pool.get?_eraseAll]
  split <;> rfl

theorem parent?_releaseAll (forest : Forest) (nodes : List Handle) (other : Handle) :
    (nodes.foldl release forest).parent? other =
      if other ∈ nodes then none else forest.parent? other := by
  rw [parent?, cells_releaseAll, Pool.get?_eraseAll]
  split <;> rfl

/-! ### Taking a node off its parent -/

theorem detach_of_root {node : Handle} (root : forest.parent? node = none) :
    forest.detach node = forest := by
  rw [detach, root]

theorem cells_detach_of_parent? {node parent : Handle} (above : forest.parent? node = some parent) :
    (forest.detach node).cells =
      ((forest.changeNode parent (·.without node)).setParentLink node none).cells := by
  rw [detach, above]
  dsimp only
  split
  next => rw [cells_store]
  next => rfl

theorem Linked.map_without (linked : forest.Linked) {child other : Handle}
    (apart : forest.parent? child ≠ some other) :
    (forest.node? other).map (·.without child) = forest.node? other := by
  cases located : forest.node? other with
  | none => rfl
  | some content =>
      rw [Option.map_some, Node.without_of_not_mem (linked.not_mem_children located apart)]

theorem Linked.node?_detach (linked : forest.Linked) (node other : Handle) :
    (forest.detach node).node? other = (forest.node? other).map (·.without node) := by
  cases above : forest.parent? node with
  | none =>
      rw [detach_of_root above]
      exact (linked.map_without (by simp [above])).symm
  | some parent =>
      rw [node?, cells_detach_of_parent? above, ← node?, node?_setParentLink, node?_changeNode]
      split
      next same => rw [same]
      next different =>
        refine (linked.map_without fun found => different ?_).symm
        rw [above] at found
        exact (Option.some.inj found).symm

theorem Linked.bare_node?_detach (linked : forest.Linked) (node other : Handle) :
    ((forest.detach node).node? other).map Node.bare = (forest.node? other).map Node.bare := by
  rw [linked.node?_detach, Option.map_map]
  congr 1
  funext content
  exact content.bare_without node

theorem parent?_detach (forest : Forest) (node other : Handle) :
    (forest.detach node).parent? other = if other = node then none else forest.parent? other := by
  cases above : forest.parent? node with
  | none =>
      rw [detach_of_root above]
      split
      next same => rw [same, above]
      next => rfl
  | some parent =>
      rw [parent?, cells_detach_of_parent? above, ← parent?, parent?_setParentLink,
        parent?_changeNode]
      split
      next => cases (forest.changeNode parent (·.without node)).node? node <;> rfl
      next => rfl

theorem wellFormed_changeNode (formed : forest.cells.WellFormed) (node : Handle)
    (change : Node → Node) : (forest.changeNode node change).cells.WellFormed :=
  Pool.wellFormed_modify formed _ _

theorem wellFormed_setParentLink (formed : forest.cells.WellFormed) (node : Handle)
    (parent : Option Handle) : (forest.setParentLink node parent).cells.WellFormed :=
  Pool.wellFormed_modify formed _ _

theorem wellFormed_detach (formed : forest.cells.WellFormed) (node : Handle) :
    (forest.detach node).cells.WellFormed := by
  cases above : forest.parent? node with
  | none => rwa [detach_of_root above]
  | some parent =>
      rw [cells_detach_of_parent? above]
      exact wellFormed_setParentLink (wellFormed_changeNode formed _ _) _ _

theorem Linked.isChild_detach_iff (linked : forest.Linked) {node child parent : Handle} :
    (forest.detach node).IsChild child parent ↔ forest.IsChild child parent ∧ child ≠ node := by
  unfold IsChild
  simp only [linked.node?_detach, Option.map_eq_some_iff]
  constructor
  · rintro ⟨_, ⟨content, located, rfl⟩, member⟩
    rw [Node.children_without, List.mem_filter, decide_eq_true_eq] at member
    exact ⟨⟨content, located, member.1⟩, member.2⟩
  · rintro ⟨⟨content, located, member⟩, different⟩
    refine ⟨_, ⟨content, located, rfl⟩, ?_⟩
    rw [Node.children_without, List.mem_filter, decide_eq_true_eq]
    exact ⟨member, different⟩

theorem Linked.detach (linked : forest.Linked) (node : Handle) : (forest.detach node).Linked where
  formed := wellFormed_detach linked.formed node
  parent?_of_child child parent down := by
    have ⟨old, different⟩ := linked.isChild_detach_iff.mp down
    rw [parent?_detach, if_neg different]
    exact linked.parent?_of_child child parent old
  count_of_parent? child parent above := by
    rw [parent?_detach] at above
    split at above
    next => cases above
    next different =>
      obtain ⟨content, located, once⟩ := linked.count_of_parent? child parent above
      refine ⟨_, by rw [linked.node?_detach, located, Option.map_some], ?_⟩
      rw [Node.children_without, List.count_filter (by simpa using different)]
      exact once
  acyclic := acyclic_of_subset linked.acyclic fun _ _ down => (linked.isChild_detach_iff.mp down).1
  group_parent? group members located := by
    obtain ⟨before, located⟩ := exists_group_of_bare (linked.bare_node?_detach node group) located
    rw [parent?_detach, linked.group_parent? group before located, ite_self]
  assignment_parent? assignment left right parent located above := by
    obtain ⟨first, second, located⟩ :=
      exists_assignment_of_bare (linked.bare_node?_detach node assignment) located
    rw [parent?_detach] at above
    split at above
    next => cases above
    next =>
      obtain ⟨members, group⟩ :=
        linked.assignment_parent? assignment first second parent located above
      exact exists_group_of_bare (linked.bare_node?_detach node parent).symm group
  assignment_target assignment left right located := by
    rw [linked.node?_detach, Option.map_eq_some_iff] at located
    obtain ⟨content, located, made⟩ := located
    cases content with
    | binary operator first second =>
        simp only [Node.without, Node.binary.injEq, Option.filter_eq_some_iff] at made
        obtain ⟨rfl, ⟨rfl, -⟩, -⟩ := made
        obtain ⟨name, found⟩ := linked.assignment_target assignment left second located
        exact ⟨name, by rw [linked.node?_detach, found]; rfl⟩
    | _ => cases made

/-! ### Making and freeing nodes -/

theorem isChild_allocate_iff (formed : forest.cells.WellFormed) {node : Node}
    (leaf : node.children = []) {child parent : Handle} :
    (forest.allocate node).2.IsChild child parent ↔ forest.IsChild child parent := by
  unfold IsChild
  rw [node?_allocate formed]
  split
  next new =>
    rw [new, node?_allocate_handle formed]
    simp [leaf]
  next => rfl

theorem Linked.allocate (linked : forest.Linked) {node : Node} (leaf : node.children = []) :
    (forest.allocate node).2.Linked := by
  have dead := parent?_of_dead (node?_allocate_handle linked.formed node)
  have kept {other : Handle} {content : Node} (located : forest.node? other = some content) :=
    node?_allocate_of_live linked.formed node located
  refine ⟨Pool.wellFormed_insert linked.formed _, ?_, ?_, ?_, ?_, ?_, ?_⟩
  · intro child parent down
    rw [parent?_allocate linked.formed]
    exact linked.parent?_of_child child parent ((isChild_allocate_iff linked.formed leaf).mp down)
  · intro child parent above
    rw [parent?_allocate linked.formed] at above
    obtain ⟨content, located, once⟩ := linked.count_of_parent? child parent above
    exact ⟨content, kept located, once⟩
  · exact acyclic_of_subset linked.acyclic fun _ _ => (isChild_allocate_iff linked.formed leaf).mp
  · intro group members located
    rw [parent?_allocate linked.formed]
    rw [node?_allocate linked.formed] at located
    split at located
    next new => rw [new, dead]
    next => exact linked.group_parent? group members located
  · intro assignment left right parent located above
    rw [parent?_allocate linked.formed] at above
    rw [node?_allocate linked.formed] at located
    split at located
    next new =>
      rw [new, dead] at above
      cases above
    next =>
      obtain ⟨members, group⟩ :=
        linked.assignment_parent? assignment left right parent located above
      exact ⟨members, kept group⟩
  · intro assignment left right located
    rw [node?_allocate linked.formed] at located
    split at located
    next =>
      cases located
      cases leaf
    next =>
      obtain ⟨name, found⟩ := linked.assignment_target assignment left right located
      exact ⟨name, kept found⟩

theorem node?_releaseAll_eq_some_iff {nodes : List Handle} {other : Handle} {content : Node} :
    (nodes.foldl release forest).node? other = some content ↔
      other ∉ nodes ∧ forest.node? other = some content := by
  rw [node?_releaseAll]
  split
  next gone => simp [gone]
  next stays => simp [stays]

theorem parent?_releaseAll_eq_some_iff {nodes : List Handle} {child parent : Handle} :
    (nodes.foldl release forest).parent? child = some parent ↔
      child ∉ nodes ∧ forest.parent? child = some parent := by
  rw [parent?_releaseAll]
  split
  next gone => simp [gone]
  next stays => simp [stays]

theorem isChild_releaseAll_iff {nodes : List Handle} {child parent : Handle} :
    (nodes.foldl release forest).IsChild child parent ↔
      parent ∉ nodes ∧ forest.IsChild child parent := by
  simp only [IsChild, node?_releaseAll_eq_some_iff, and_assoc, exists_and_left]

theorem Linked.releaseAll (linked : forest.Linked) {nodes : List Handle}
    (closed : ∀ child parent, forest.IsChild child parent → (child ∈ nodes ↔ parent ∈ nodes)) :
    (nodes.foldl release forest).Linked := by
  have stays_iff {child parent : Handle} (link : forest.IsChild child parent) :
      child ∉ nodes ↔ parent ∉ nodes := not_congr (closed child parent link)
  refine ⟨?_, ?_, ?_, ?_, ?_, ?_, ?_⟩
  · rw [cells_releaseAll]
    exact Pool.wellFormed_eraseAll linked.formed nodes
  · intro child parent link
    obtain ⟨stays, link⟩ := isChild_releaseAll_iff.mp link
    apply parent?_releaseAll_eq_some_iff.mpr
    exact ⟨(stays_iff link).mpr stays, linked.parent?_of_child child parent link⟩
  · intro child parent above
    obtain ⟨stays, above⟩ := parent?_releaseAll_eq_some_iff.mp above
    obtain ⟨content, located, once⟩ := linked.count_of_parent? child parent above
    have stays := (stays_iff (linked.isChild_iff.mpr above)).mp stays
    exact ⟨content, node?_releaseAll_eq_some_iff.mpr ⟨stays, located⟩, once⟩
  · exact acyclic_of_subset linked.acyclic fun _ _ link => (isChild_releaseAll_iff.mp link).2
  · intro group members located
    obtain ⟨-, located⟩ := node?_releaseAll_eq_some_iff.mp located
    rw [parent?_releaseAll, linked.group_parent? group members located, ite_self]
  · intro assignment left right parent located above
    obtain ⟨-, located⟩ := node?_releaseAll_eq_some_iff.mp located
    obtain ⟨stays, above⟩ := parent?_releaseAll_eq_some_iff.mp above
    obtain ⟨members, group⟩ :=
      linked.assignment_parent? assignment left right parent located above
    have stays := (stays_iff (linked.isChild_iff.mpr above)).mp stays
    exact ⟨members, node?_releaseAll_eq_some_iff.mpr ⟨stays, group⟩⟩
  · intro assignment left right located
    obtain ⟨stays, located⟩ := node?_releaseAll_eq_some_iff.mp located
    obtain ⟨name, found⟩ := linked.assignment_target assignment left right located
    have link : forest.IsChild left assignment := ⟨_, located, by simp [Node.children]⟩
    exact ⟨name, node?_releaseAll_eq_some_iff.mpr ⟨(stays_iff link).mpr stays, found⟩⟩

/-- A node without a parent goes with all that is below it. -/
theorem Linked.below_closed (linked : forest.Linked) {root child parent : Handle}
    (alone : forest.parent? root = none) (down : forest.IsChild child parent) :
    forest.Below child root ↔ forest.Below parent root := by
  constructor
  · intro below
    rcases below.cases_head with rfl | ⟨next, up, rest⟩
    · rw [linked.parent?_of_child child parent down] at alone
      cases alone
    · have same := linked.parent?_of_child child next up
      rw [linked.parent?_of_child child parent down] at same
      cases same
      exact rest
  · exact .head down

theorem Linked.removeTree (linked : forest.Linked) (node : Handle) :
    (forest.removeTree node).Linked := by
  have detached := linked.detach node
  refine detached.releaseAll fun child parent down => ?_
  rw [detached.mem_sweep, detached.mem_sweep]
  refine detached.below_closed ?_ down
  rw [parent?_detach, if_pos rfl]

theorem Linked.clear (linked : forest.Linked) : forest.clear.Linked :=
  linked_of_no_cells (Pool.wellFormed_clear linked.formed) (Pool.get?_clear forest.cells)
    forest.table

end Forest

end Worksheet
