import Worksheet.Proofs.Forest.Surgery

/-!
# Putting nodes below others

A detached node may be hung below another one that is not below it, as an operand or
as a member.  Moving a node is taking it off its parent and hanging it elsewhere.
-/

namespace Worksheet

namespace Node

@[simp]
theorem withOperand_withOperand (node : Node) (side : Side) (first second : Option Handle) :
    (node.withOperand side first).withOperand side second = node.withOperand side second := by
  cases node <;> cases side <;> rfl

theorem withOperand_of_operand? {node : Node} {side : Side} {child : Option Handle}
    (here : node.operand? side = child) : node.withOperand side child = node := by
  cases node <;> cases side <;> simp_all [operand?, withOperand]

theorem mem_children_of_operand? {node : Node} {side : Side} {child : Handle}
    (here : node.operand? side = some child) : child ∈ node.children := by
  cases node <;> cases side <;> simp_all [operand?, children]

theorem without_of_operand? {node : Node} {side : Side} {child : Handle}
    (here : node.operand? side = some child) (once : node.children.count child = 1) :
    node.without child = node.withOperand side none := by
  cases node with
  | binary operator left right =>
      cases side with
      | left =>
          obtain rfl : left = some child := here
          have other : child ∉ right.toList := by
            rw [children, Option.toList_some, List.count_append, List.count_singleton_self] at once
            exact List.count_eq_zero.mp (by omega)
          cases right <;> simp_all [without, withOperand, Option.filter, eq_comm]
      | right =>
          obtain rfl : right = some child := here
          have other : child ∉ left.toList := by
            rw [children, Option.toList_some, List.count_append, List.count_singleton_self] at once
            exact List.count_eq_zero.mp (by omega)
          cases left <;> simp_all [without, withOperand, Option.filter, eq_comm]
  | _ => cases side <;> cases here

theorem children_withOperand {node : Node} {operator : Operator} {side : Side}
    (binary : node.operator? = some operator) (free : node.operand? side = none) (child : Handle) :
    (node.withOperand side (some child)).children.Perm (child :: node.children) := by
  obtain ⟨left, right, rfl⟩ := operator?_eq_some_iff.mp binary
  cases side with
  | left =>
      obtain rfl : left = none := free
      exact .refl _
  | right =>
      obtain rfl : right = none := free
      simp [withOperand, children]

theorem operand?_withOperand_none {node : Node} {operator : Operator}
    (binary : node.operator? = some operator) (side : Side) :
    (node.withOperand side none).operand? side = none := by
  obtain ⟨left, right, rfl⟩ := operator?_eq_some_iff.mp binary
  cases side <;> rfl

theorem mem_children_of_withOperand_none {node : Node} {side : Side} {child : Handle}
    (member : child ∈ (node.withOperand side none).children) : child ∈ node.children := by
  cases node <;> cases side <;> simp_all [withOperand, children]

end Node

namespace Forest

variable {forest : Forest}

/-! ### Hanging a detached node -/

section Hanging

variable {child parent : Handle} {content lower : Node} {change : Node → Node}

theorem node?_hang (located : forest.node? parent = some content) (other : Handle) :
    ((forest.changeNode parent change).setParentLink child (some parent)).node? other =
      if other = parent then some (change content) else forest.node? other := by
  rw [node?_setParentLink, node?_changeNode, located]
  rfl

theorem parent?_hang (found : forest.node? child = some lower) (different : child ≠ parent)
    (other : Handle) :
    ((forest.changeNode parent change).setParentLink child (some parent)).parent? other =
      if other = child then some parent else forest.parent? other := by
  rw [parent?_setParentLink, node?_changeNode, if_neg different, found, parent?_changeNode]
  rfl

theorem isChild_hang_iff (located : forest.node? parent = some content)
    (listed : (change content).children.Perm (child :: content.children)) {low high : Handle} :
    ((forest.changeNode parent change).setParentLink child (some parent)).IsChild low high ↔
      forest.IsChild low high ∨ low = child ∧ high = parent := by
  unfold IsChild
  rw [node?_hang located]
  split
  next here =>
    rw [here, located]
    simp [listed.mem_iff, or_comm]
  next elsewhere => simp [elsewhere]

theorem bare_node?_hang (located : forest.node? parent = some content)
    (bare : (change content).bare = content.bare) (other : Handle) :
    (((forest.changeNode parent change).setParentLink child (some parent)).node? other).map
      Node.bare = (forest.node? other).map Node.bare := by
  rw [node?_hang located]
  split
  next same => rw [same, located, Option.map_some, Option.map_some, bare]
  next => rfl

theorem Linked.parent?_of_child_hang (linked : forest.Linked)
    (located : forest.node? parent = some content) (found : forest.node? child = some lower)
    (alone : forest.parent? child = none) (different : child ≠ parent)
    (listed : (change content).children.Perm (child :: content.children)) {low high : Handle}
    (down : ((forest.changeNode parent change).setParentLink child (some parent)).IsChild low
      high) :
    ((forest.changeNode parent change).setParentLink child (some parent)).parent? low =
      some high := by
  rw [parent?_hang found different]
  rcases (isChild_hang_iff located listed).mp down with link | ⟨rfl, rfl⟩
  · have above := linked.parent?_of_child low high link
    rw [if_neg, above]
    rintro rfl
    rw [above] at alone
    cases alone
  · rw [if_pos rfl]

theorem Linked.count_of_parent?_hang (linked : forest.Linked)
    (located : forest.node? parent = some content) (found : forest.node? child = some lower)
    (alone : forest.parent? child = none) (different : child ≠ parent)
    (listed : (change content).children.Perm (child :: content.children)) {low high : Handle}
    (above : ((forest.changeNode parent change).setParentLink child (some parent)).parent? low =
      some high) :
    ∃ node, ((forest.changeNode parent change).setParentLink child (some parent)).node? high =
      some node ∧ node.children.count low = 1 := by
  rw [parent?_hang found different] at above
  rw [node?_hang located]
  split at above
  next here =>
    cases above
    refine ⟨_, if_pos rfl, ?_⟩
    have absent : child ∉ content.children := linked.not_mem_children located (by simp [alone])
    rw [here, listed.count_eq, List.count_cons_self, List.count_eq_zero.mpr absent]
  next elsewhere =>
    obtain ⟨node, here, once⟩ := linked.count_of_parent? low high above
    split
    next same =>
      rw [same, located] at here
      cases here
      refine ⟨_, rfl, ?_⟩
      rw [listed.count_eq, List.count_cons_of_ne (Ne.symm elsewhere), once]
    next => exact ⟨node, here, once⟩

/-- An assignment goes into groups only, and it stays in the one it is in. -/
theorem Linked.assignment_parent?_hang (linked : forest.Linked)
    (located : forest.node? parent = some content) (found : forest.node? child = some lower)
    (different : child ≠ parent) (topmost : lower.isAssignment = true → content.isGroup = true)
    {assignment high : Handle} {left right : Option Handle}
    (before : forest.node? assignment = some (.binary .assign left right))
    (above : ((forest.changeNode parent change).setParentLink child (some parent)).parent?
      assignment = some high) :
    ∃ members, forest.node? high = some (.group members) := by
  rw [parent?_hang found different] at above
  split at above
  next here =>
    cases above
    rw [here, found] at before
    cases before
    obtain ⟨members, rfl⟩ := Node.isGroup_eq_true_iff.mp (topmost rfl)
    exact ⟨members, located⟩
  next => exact linked.assignment_parent? assignment left right high before above

/-- A node without a parent may be hung below a node that is not below it, where its
contents allow it. -/
theorem Linked.hang (linked : forest.Linked)
    (located : forest.node? parent = some content) (found : forest.node? child = some lower)
    (alone : forest.parent? child = none) (single : lower.isGroup = false)
    (apart : ¬forest.Below parent child)
    (listed : (change content).children.Perm (child :: content.children))
    (bare : (change content).bare = content.bare)
    (topmost : lower.isAssignment = true → content.isGroup = true)
    (target : ∀ left right, change content = .binary .assign (some left) right →
      ∃ name, forest.node? left = some (.variable name)) :
    ((forest.changeNode parent change).setParentLink child (some parent)).Linked := by
  have different : child ≠ parent := by
    rintro rfl
    exact apart .refl
  have bares (other : Handle) :
      (((forest.changeNode parent change).setParentLink child (some parent)).node? other).map
        Node.bare = (forest.node? other).map Node.bare :=
    bare_node?_hang located bare other
  refine ⟨?_, ?_, ?_, ?_, ?_, ?_, ?_⟩
  · exact wellFormed_setParentLink (wellFormed_changeNode linked.formed _ _) _ _
  · intro low high down
    exact linked.parent?_of_child_hang located found alone different listed down
  · intro low high above
    exact linked.count_of_parent?_hang located found alone different listed above
  · exact acyclic_of_link linked.acyclic apart fun low high => (isChild_hang_iff located listed).mp
  · intro group members here
    obtain ⟨members', before⟩ := exists_group_of_bare (bares group) here
    rw [parent?_hang found different, if_neg]
    · exact linked.group_parent? group members' before
    · rintro rfl
      rw [found] at before
      cases before
      cases single
  · intro assignment left right above here up
    obtain ⟨first, second, before⟩ := exists_assignment_of_bare (bares assignment) here
    obtain ⟨members, group⟩ :=
      linked.assignment_parent?_hang located found different topmost before up
    exact exists_group_of_bare (bares above).symm group
  · intro assignment left right here
    have named : ∃ name, forest.node? left = some (.variable name) := by
      rw [node?_hang located] at here
      split at here
      next => exact target left right (Option.some.inj here)
      next => exact linked.assignment_target assignment left right here
    obtain ⟨name, named⟩ := named
    exact ⟨name, variable_of_bare (bares left).symm named⟩

end Hanging

/-! ### Members -/

theorem Linked.below_of_detach (linked : forest.Linked) {node low high : Handle}
    (below : (forest.detach node).Below low high) : forest.Below low high :=
  Relation.ReflTransGen.lift id (fun _ _ down => (linked.isChild_detach_iff.mp down).1) _ _ below

theorem Linked.adopt (linked : forest.Linked) {group child : Handle} {members : List Handle}
    {node : Node} (located : forest.node? group = some (.group members))
    (found : forest.node? child = some node) (single : node.isGroup = false) :
    (forest.adopt group child).Linked := by
  have detached := linked.detach child
  have above : (forest.detach child).node? group = some (.group (members.filter (· ≠ child))) := by
    rw [linked.node?_detach, located]
    rfl
  have below : (forest.detach child).node? child = some (node.without child) := by
    rw [linked.node?_detach, found]
    rfl
  refine detached.hang above below ?_ ?_ ?_ ?_ rfl ?_ ?_
  · rw [parent?_detach, if_pos rfl]
  · rw [Node.isGroup_without, single]
  · intro up
    have same := detached.eq_of_below_of_root up (detached.group_parent? group _ above)
    rw [← same, located] at found
    cases found
    cases single
  · exact List.perm_append_comm
  · exact fun _ => rfl
  · intro left right made
    cases made

theorem bare_node?_changeNode (forest : Forest) (node other : Handle) {change : Node → Node}
    (bare : ∀ content, (change content).bare = content.bare) :
    ((forest.changeNode node change).node? other).map Node.bare =
      (forest.node? other).map Node.bare := by
  rw [node?_changeNode]
  split
  next same =>
    rw [same, Option.map_map]
    congr 1
    funext content
    exact bare content
  next => rfl

theorem Linked.bare_node?_adopt (linked : forest.Linked) (group child other : Handle) :
    ((forest.adopt group child).node? other).map Node.bare =
      (forest.node? other).map Node.bare := by
  rw [Forest.adopt, node?_setParentLink,
    bare_node?_changeNode _ _ _ fun content => content.bare_withMember child,
    linked.bare_node?_detach]

/-! ### Operands -/

/-- The links say all that a forest has to keep in order. -/
theorem Linked.of_same {forest' : Forest} (linked : forest.Linked)
    (formed : forest'.cells.WellFormed)
    (nodes : ∀ other, forest'.node? other = forest.node? other)
    (parents : ∀ other, forest'.parent? other = forest.parent? other) : forest'.Linked := by
  have links : forest'.IsChild = forest.IsChild := by
    funext child parent
    rw [IsChild, IsChild, nodes]
  constructor
  · exact formed
  · simpa only [links, parents] using linked.parent?_of_child
  · simpa only [nodes, parents] using linked.count_of_parent?
  · simpa only [links] using linked.acyclic
  · simpa only [nodes, parents] using linked.group_parent?
  · simpa only [nodes, parents] using linked.assignment_parent?
  · simpa only [nodes] using linked.assignment_target

@[simp]
theorem node?_orphan (forest : Forest) (operand : Option Handle) (other : Handle) :
    (forest.orphan operand).node? other = forest.node? other := by
  cases operand with
  | none => rfl
  | some node => exact node?_setParentLink forest node other none

theorem parent?_orphan (forest : Forest) (operand : Option Handle) (other : Handle) :
    (forest.orphan operand).parent? other =
      if operand = some other then none else forest.parent? other := by
  cases operand with
  | none => rfl
  | some node =>
      rw [orphan, parent?_setParentLink]
      by_cases same : other = node
      · cases forest.node? node <;> simp [same]
      · simp [same, Ne.symm same]

theorem node?_place (forest : Forest) (binary other : Handle) (side : Side)
    (child : Option Handle) :
    (forest.place binary side child).node? other =
      if other = binary then (forest.node? binary).map (·.withOperand side child)
      else forest.node? other := by
  cases child with
  | none => rw [place, node?_changeNode, node?_orphan, node?_orphan]
  | some node => rw [place, node?_setParentLink, node?_changeNode, node?_orphan, node?_orphan]

theorem parent?_place_none (forest : Forest) (binary other : Handle) (side : Side) :
    (forest.place binary side none).parent? other =
      if forest.operand? binary side = some other then none else forest.parent? other := by
  rw [place, parent?_changeNode, parent?_orphan]

theorem parent?_place_some {node : Handle} {content : Node}
    (found : forest.node? node = some content) (binary other : Handle) (side : Side) :
    (forest.place binary side (some node)).parent? other =
      if other = node then some binary
      else if forest.operand? binary side = some other then none else forest.parent? other := by
  rw [place, parent?_setParentLink, parent?_changeNode, parent?_orphan, node?_changeNode,
    node?_orphan, node?_orphan, found]
  by_cases self : node = binary
  · rw [if_pos self, ← self, found]
    rfl
  · rw [if_neg self]
    rfl

theorem wellFormed_place (formed : forest.cells.WellFormed) (binary : Handle) (side : Side)
    (child : Option Handle) : (forest.place binary side child).cells.WellFormed := by
  have orphaned (operand : Option Handle) : (forest.orphan operand).cells.WellFormed := by
    cases operand with
    | none => exact formed
    | some node => exact wellFormed_setParentLink formed node none
  cases child with
  | none => exact wellFormed_changeNode (orphaned _) _ _
  | some node => exact wellFormed_setParentLink (wellFormed_changeNode (orphaned _) _ _) _ _

theorem operand?_eq_some_iff {binary child : Handle} {side : Side} :
    forest.operand? binary side = some child ↔
      ∃ content, forest.node? binary = some content ∧ content.operand? side = some child := by
  rw [operand?, Option.bind_eq_some_iff]

theorem Linked.place_none (linked : forest.Linked) (binary : Handle) (side : Side) :
    (forest.place binary side none).Linked := by
  have formed := wellFormed_place linked.formed binary side none
  cases before : forest.operand? binary side with
  | none =>
      refine linked.of_same formed (fun other => ?_) (fun other => ?_)
      · rw [node?_place]
        split
        next same =>
          rw [same]
          cases located : forest.node? binary with
          | none => rfl
          | some content =>
              rw [operand?, located, Option.bind_some] at before
              rw [Option.map_some, Node.withOperand_of_operand? before]
        next => rfl
      · rw [parent?_place_none, before, if_neg (by simp)]
  | some child =>
      obtain ⟨content, located, here⟩ := operand?_eq_some_iff.mp before
      have above : forest.parent? child = some binary :=
        linked.parent?_of_child child binary ⟨content, located, Node.mem_children_of_operand? here⟩
      obtain ⟨node, found, once⟩ := linked.count_of_parent? child binary above
      cases found.symm.trans located
      refine (linked.detach child).of_same formed (fun other => ?_) (fun other => ?_)
      · rw [node?_place, linked.node?_detach]
        split
        next same => rw [same, located, Option.map_some, Option.map_some,
          Node.without_of_operand? here once]
        next different =>
          cases found : forest.node? other with
          | none => rfl
          | some node =>
              have absent : child ∉ node.children := linked.not_mem_children found
                (by rw [above]; exact fun same => different (Option.some.inj same).symm)
              rw [Option.map_some, Node.without_of_not_mem absent]
      · rw [parent?_place_none, parent?_detach, before]
        by_cases same : other = child
        · rw [if_pos (by rw [same]), if_pos same]
        · rw [if_neg (fun found => same (Option.some.inj found).symm), if_neg same]

theorem below_of_place_none {binary : Handle} {side : Side} {low high : Handle}
    (below : (forest.place binary side none).Below low high) : forest.Below low high := by
  refine Relation.ReflTransGen.lift id (fun child parent down => ?_) _ _ below
  obtain ⟨upper, here, member⟩ := down
  rw [node?_place] at here
  split at here
  next top =>
    obtain ⟨content, located, rfl⟩ := Option.map_eq_some_iff.mp here
    exact ⟨content, top ▸ located, Node.mem_children_of_withOperand_none member⟩
  next => exact ⟨upper, here, member⟩

/-- What has to hold of a node that is hung below a binary one. -/
structure Fits (forest : Forest) (operator : Operator) (binary : Handle) (side : Side)
    (child : Handle) : Prop where
  apart : ¬forest.Below binary child
  content : ∃ node, forest.node? child = some node ∧ node.isGroup = false ∧
    node.isAssignment = false ∧ (operator = .assign → side = .left → node.isVariable = true)

theorem Linked.assignment_target_place (linked : forest.Linked) {binary child left : Handle}
    {content : Node} {operator : Operator} {side : Side} {right : Option Handle}
    (located : forest.node? binary = some content) (isBinary : content.operator? = some operator)
    (fits : forest.Fits operator binary side child)
    (made : content.withOperand side (some child) = .binary .assign (some left) right) :
    ∃ name, forest.node? left = some (.variable name) := by
  obtain ⟨-, node, found, -, -, target⟩ := fits
  obtain ⟨first, second, rfl⟩ := Node.operator?_eq_some_iff.mp isBinary
  cases side with
  | left =>
      cases made
      obtain ⟨name, rfl⟩ := Node.isVariable_eq_true_iff.mp (target rfl rfl)
      exact ⟨name, found⟩
  | right =>
      cases made
      exact linked.assignment_target binary left second located

theorem Linked.place_some (linked : forest.Linked) {binary child : Handle} {content : Node}
    {operator : Operator} {side : Side} (located : forest.node? binary = some content)
    (isBinary : content.operator? = some operator) (alone : forest.parent? child = none)
    (fits : forest.Fits operator binary side child) :
    (forest.place binary side (some child)).Linked := by
  obtain ⟨node, found, single, lower, -⟩ := fits.content
  have emptied := linked.place_none binary side
  have different : child ≠ binary := by
    rintro rfl
    exact fits.apart .refl
  have located' : (forest.place binary side none).node? binary =
      some (content.withOperand side none) := by
    rw [node?_place, if_pos rfl, located, Option.map_some]
  have found' : (forest.place binary side none).node? child = some node := by
    rw [node?_place, if_neg different, found]
  have isBinary' : (content.withOperand side none).operator? = some operator := by
    rw [← Node.operator?_bare, Node.bare_withOperand, Node.operator?_bare, isBinary]
  have free := Node.operand?_withOperand_none isBinary side
  let hungForest := ((forest.place binary side none).changeNode binary
    (·.withOperand side (some child))).setParentLink child (some binary)
  have hung : hungForest.Linked := by
    refine emptied.hang located' found' ?_ single ?_ ?_ ?_ ?_ ?_
    · rw [parent?_place_none, alone, ite_self]
    · exact fun below => fits.apart (below_of_place_none below)
    · exact Node.children_withOperand isBinary' free child
    · rw [Node.bare_withOperand]
    · intro isAssignment
      rw [lower] at isAssignment
      cases isAssignment
    · intro left right made
      rw [Node.withOperand_withOperand] at made
      obtain ⟨name, named⟩ := linked.assignment_target_place located isBinary fits made
      refine ⟨name, ?_⟩
      rw [node?_place, if_neg, named]
      rintro rfl
      rw [located] at named
      cases named
      cases isBinary
  refine hung.of_same (wellFormed_place linked.formed _ _ _) (fun other => ?_) (fun other => ?_)
  · rw [node?_hang located', node?_place, node?_place, located]
    split
    next => rw [Option.map_some, Node.withOperand_withOperand]
    next => rfl
  · rw [parent?_hang found' different, parent?_place_some found, parent?_place_none]

end Forest

end Worksheet
