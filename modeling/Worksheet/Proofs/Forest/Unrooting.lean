import Worksheet.Proofs.Forest.Outcome
import Worksheet.Proofs.Pool.Mapping

/-!
# Forests without their root

The expressions of a sheet hang from one group, its root.  No operation on trees looks at
the links between them and that group: cutting these links and then grafting an expression
gives what grafting it and then cutting the links gives, down to the slots that are used.
-/

namespace Worksheet

def Node.emptied : Node → Node
  | .group _ => .group []
  | node => node

/-- The cell without the links between groups and members, where the root is the one group
that has any. -/
def Cell.unrooted (root : Handle) (cell : Cell) : Cell :=
  ⟨cell.node.emptied, cell.parent.filter (· ≠ root)⟩

/-- The forest with nothing below its root. -/
def Forest.unrooted (root : Handle) (forest : Forest) : Forest :=
  { forest with cells := forest.cells.map (Cell.unrooted root) }

namespace Node

@[simp]
theorem isGroup_emptied (node : Node) : node.emptied.isGroup = node.isGroup := by
  cases node <;> rfl

@[simp]
theorem isTerminal_emptied (node : Node) : node.emptied.isTerminal = node.isTerminal := by
  cases node <;> rfl

@[simp]
theorem operator?_emptied (node : Node) : node.emptied.operator? = node.operator? := by
  cases node <;> rfl

@[simp]
theorem isAssignment_emptied (node : Node) :
    node.emptied.isAssignment = node.isAssignment := by
  rw [isAssignment, operator?_emptied, isAssignment]

@[simp]
theorem isVariable_emptied (node : Node) : node.emptied.isVariable = node.isVariable := by
  cases node <;> rfl

@[simp]
theorem operand?_emptied (node : Node) : node.emptied.operand? = node.operand? := by
  cases node <;> rfl

theorem emptied_without (node : Node) (child : Handle) :
    (node.without child).emptied = node.emptied.without child := by
  cases node <;> rfl

theorem emptied_withOperand (node : Node) (side : Side) (child : Option Handle) :
    (node.withOperand side child).emptied = node.emptied.withOperand side child := by
  cases node <;> cases side <;> rfl

theorem emptied_of_not_group {node : Node} (single : node.isGroup = false) :
    node.emptied = node := by
  cases node with
  | group members => cases single
  | _ => rfl

theorem misplacement?_emptied (child parent : Node) :
    child.emptied.misplacement? parent.emptied = child.misplacement? parent := by
  simp [misplacement?]

end Node

namespace Forest

variable {forest : Forest} {root node : Handle}

/-! ### Reading -/

@[simp]
theorem node?_unrooted (forest : Forest) (root node : Handle) :
    (forest.unrooted root).node? node = (forest.node? node).map Node.emptied := by
  rw [node?, unrooted, Pool.get?_map, node?, Option.map_map, Option.map_map]
  rfl

@[simp]
theorem parent?_unrooted (forest : Forest) (root node : Handle) :
    (forest.unrooted root).parent? node = (forest.parent? node).filter (· ≠ root) := by
  rw [parent?, unrooted, Pool.get?_map, parent?]
  cases forest.cells.get? node <;> rfl

@[simp]
theorem operand?_unrooted (side : Side) :
    (forest.unrooted root).operand? node side = forest.operand? node side := by
  cases located : forest.node? node <;> simp [operand?, located]

@[simp]
theorem name?_unrooted : (forest.unrooted root).name? node = forest.name? node := by
  simp only [name?, node?_unrooted]
  cases forest.node? node with
  | none => rfl
  | some content => cases content <;> rfl

@[simp]
theorem target?_unrooted : (forest.unrooted root).target? node = forest.target? node := by
  simp only [target?, node?_unrooted]
  cases forest.node? node with
  | none => rfl
  | some content =>
      cases content with
      | binary operator left right =>
          cases operator <;> cases left <;> first | rfl | exact name?_unrooted
      | _ => rfl

@[simp]
theorem isAssigned_unrooted (child : Handle) :
    (forest.unrooted root).isAssigned node child = forest.isAssigned node child := by
  simp only [isAssigned, node?_unrooted]
  cases forest.node? node with
  | none => rfl
  | some content => cases content <;> rfl

end Forest

theorem Tree.ofCells_unrooted (cells : Pool Cell) (root id : Handle) :
    Tree.ofCells (cells.map (Cell.unrooted root)) id = Tree.ofCells cells id := by
  induction cells, id using ofCells.induct with
  | case5 cells id cell found operator left right binary inductionHypothesis =>
      have operands : ofCells ((cells.hide id).map (Cell.unrooted root)) =
          ofCells (cells.hide id) := funext inductionHypothesis
      rw [ofCells_eq_ofNode, ofCells_eq_ofNode cells, Pool.hide_map, Pool.get?_map, found, operands]
      simp [Cell.unrooted, binary, Node.emptied]
  | case1 cells id | case2 cells id | case3 cells id | case4 cells id =>
      rw [ofCells_eq_ofNode, ofCells_eq_ofNode cells, Pool.get?_map]
      simp_all [Cell.unrooted, Node.emptied, ofNode]

namespace Forest

variable {forest : Forest} {root node : Handle}

@[simp]
theorem tree_unrooted : (forest.unrooted root).tree = forest.tree :=
  funext fun node => Tree.ofCells_unrooted forest.cells root node

/-- The node is no group, live or not. -/
def Single (forest : Forest) (node : Handle) : Prop :=
  ∀ members, forest.node? node ≠ some (.group members)

theorem single_of_located {content : Node} (located : forest.node? node = some content)
    (single : content.isGroup = false) : forest.Single node := by
  rintro members group
  cases located.symm.trans group
  cases single

theorem Linked.single_of_expr? (linked : forest.Linked) {expr : Expr}
    (found : (forest.tree node).expr? = some expr) : forest.Single node := by
  obtain ⟨content, located, single⟩ := linked.live_of_expr? found
  exact single_of_located located single

namespace Single

theorem node?_unrooted (single : forest.Single node) (root : Handle) :
    (forest.unrooted root).node? node = forest.node? node := by
  rw [Forest.node?_unrooted]
  cases located : forest.node? node with
  | none => rfl
  | some content =>
      cases content with
      | group members => exact absurd located (single members)
      | _ => rfl

theorem trees_unrooted (single : forest.Single node) :
    (forest.unrooted root).trees node = forest.trees node := by
  simp only [trees, single.node?_unrooted, tree_unrooted]

theorem sweep_unrooted (single : forest.Single node) :
    (forest.unrooted root).sweep node = forest.sweep node := by
  simp only [sweep, single.node?_unrooted, tree_unrooted]

theorem agrees_eq (single : forest.Single node) (other : Handle) :
    forest.agrees other node = (forest.tree other).agrees (forest.tree node) := by
  unfold agrees
  split
  next group => exact absurd group (single _)
  next => rfl

theorem unrooted (single : forest.Single node) (root : Handle) :
    (forest.unrooted root).Single node := by
  intro members
  rw [single.node?_unrooted]
  exact single members

theorem agrees_unrooted (single : forest.Single node) (other : Handle) :
    (forest.unrooted root).agrees other node = forest.agrees other node := by
  rw [single.agrees_eq, (single.unrooted root).agrees_eq, tree_unrooted]

theorem tryValue_unrooted (single : forest.Single node) :
    (forest.unrooted root).tryValue node =
      ((forest.tryValue node).1, (forest.tryValue node).2.unrooted root) := by
  have known : (forest.unrooted root).hasValue node = forest.hasValue node := by
    simp only [hasValue, single.trees_unrooted]
    rfl
  have valued : (forest.unrooted root).value node =
      ((forest.value node).1, (forest.value node).2.unrooted root) := by
    simp only [value, single.node?_unrooted, tree_unrooted]
    split
    next members group => exact absurd group (single members)
    next => rfl
  simp only [tryValue, known, valued]
  split <;> rfl

end Single

theorem node_unrooted :
    (forest.unrooted root).node node = (forest.node node).map Node.emptied := by
  rw [Forest.node, Forest.node, node?_unrooted]
  cases forest.node? node <;> rfl

theorem checkChild_unrooted (parent child : Handle) :
    (forest.unrooted root).checkChild parent child = forest.checkChild parent child := by
  simp only [checkChild, node_unrooted]
  cases forest.node parent with
  | error fault => rfl
  | ok upper =>
      cases found : forest.node child with
      | error fault => rfl
      | ok lower =>
          simp only [Except.map, bind, Except.bind, Node.misplacement?_emptied]
          split
          next => rfl
          next misplaced =>
            -- Only a node that is no group gets so far as to be swept.
            obtain ⟨single, -⟩ := Node.misplacement?_eq_none_iff.mp misplaced
            have alone := single_of_located (node_eq_ok_iff.mp found) single
            rw [contains, contains, alone.sweep_unrooted]

theorem checkOperand_unrooted (parent : Handle) (child : Option Handle) :
    (forest.unrooted root).checkOperand parent child = forest.checkOperand parent child := by
  cases child with
  | none => rfl
  | some child => exact checkChild_unrooted parent child

theorem checkTarget_unrooted : (forest.unrooted root).checkTarget node = forest.checkTarget node := by
  rw [checkTarget, checkTarget, node_unrooted]
  cases forest.node node with
  | error fault => rfl
  | ok content => simp [Except.map, bind, Except.bind]

theorem prepare_unrooted (operator : Operator) (left : Option Handle) {right : Option Handle}
    (single : ∀ node ∈ right, forest.Single node) :
    (forest.unrooted root).prepare operator left right =
      ((forest.prepare operator left right).1,
        (forest.prepare operator left right).2.unrooted root) := by
  have target : (forest.unrooted root).checkTarget = forest.checkTarget :=
    funext fun node => checkTarget_unrooted
  have assigned : (forest.unrooted root).assignedValue right =
      ((forest.assignedValue right).1, (forest.assignedValue right).2.unrooted root) := by
    cases right with
    | none => rfl
    | some node => exact (single node rfl).tryValue_unrooted
  rw [prepare, prepare, target, assigned]
  split
  next => split <;> rfl
  next => rfl

/-! ### Changing -/

theorem allocate_unrooted {content : Node} (single : content.isGroup = false) :
    (forest.unrooted root).allocate content =
      ((forest.allocate content).1, (forest.allocate content).2.unrooted root) := by
  have same : (⟨content, none⟩ : Cell) = Cell.unrooted root ⟨content, none⟩ := by
    rw [Cell.unrooted, Node.emptied_of_not_group single, Option.filter_none]
  simp only [allocate, unrooted]
  conv_lhs => rw [same, Pool.insert_map]

theorem release_unrooted :
    (forest.unrooted root).release node = (forest.release node).unrooted root := by
  simp only [release, unrooted, Pool.erase_map]

theorem releaseAll_unrooted (nodes : List Handle) :
    nodes.foldl release (forest.unrooted root) = (nodes.foldl release forest).unrooted root := by
  induction nodes generalizing forest with
  | nil => rfl
  | cons node rest inductionHypothesis =>
      rw [List.foldl_cons, List.foldl_cons, release_unrooted, inductionHypothesis]

theorem changeNode_unrooted {change : Node → Node}
    (same : ∀ content, (change content).emptied = change content.emptied) :
    (forest.unrooted root).changeNode node change =
      (forest.changeNode node change).unrooted root := by
  simp only [changeNode, unrooted]
  congr 1
  exact Pool.modify_map fun cell => by rw [Cell.unrooted, Cell.unrooted, same]

theorem setParentLink_unrooted {parent : Option Handle} (other : parent ≠ some root) :
    (forest.unrooted root).setParentLink node parent =
      (forest.setParentLink node parent).unrooted root := by
  have kept : parent.filter (· ≠ root) = parent := by
    cases parent <;> simp_all
  simp only [setParentLink, unrooted]
  congr 1
  exact Pool.modify_map fun cell => by rw [Cell.unrooted, Cell.unrooted, kept]

theorem store_unrooted (value : Option Number) :
    (forest.unrooted root).store node value = (forest.store node value).unrooted root := by
  rw [store, store, target?_unrooted]
  split <;> rfl

theorem unrooted_changeNode {change : Node → Node} {content : Node}
    (located : forest.node? node = some content)
    (forgotten : (change content).emptied = content.emptied) :
    (forest.changeNode node change).unrooted root = forest.unrooted root := by
  simp only [changeNode, unrooted]
  congr 1
  apply Pool.map_modify_of_forgotten
  intro cell found
  rw [node?, found] at located
  cases located
  rw [Cell.unrooted, Cell.unrooted, forgotten]

theorem unrooted_setParentLink {parent : Option Handle}
    (hanging : (forest.unrooted root).parent? node = none) (forgotten : ∀ other ∈ parent, other = root) :
    (forest.setParentLink node parent).unrooted root = forest.unrooted root := by
  simp only [setParentLink, unrooted]
  congr 1
  apply Pool.map_modify_of_forgotten
  intro cell found
  rw [parent?_unrooted, parent?, found, Option.bind_some] at hanging
  have dropped : parent.filter (· ≠ root) = none := by
    cases parent <;> simp_all
  rw [Cell.unrooted, Cell.unrooted, hanging, dropped]

/-! ### Moving -/

section Moving

variable {members : List Handle}

theorem detach_unrooted (group : forest.node? root = some (.group members)) (node : Handle) :
    (forest.unrooted root).detach node = (forest.detach node).unrooted root := by
  cases above : forest.parent? node with
  | none =>
      have alone : (forest.unrooted root).parent? node = none := by simp [above]
      rw [detach_of_root above, detach_of_root alone]
  | some parent =>
      by_cases top : parent = root
      · subst top
        have alone : (forest.unrooted parent).parent? node = none := by
          simp [above, Option.filter_some]
        have unassigned : forest.isAssigned parent node = false := by rw [isAssigned, group]
        have cut : (forest.changeNode parent (·.without node)).unrooted parent =
            forest.unrooted parent := unrooted_changeNode group rfl
        rw [detach_of_root alone, detach, above]
        simp only [unassigned, Bool.false_eq_true, if_false]
        rw [unrooted_setParentLink (by rw [cut, alone]) (by simp), cut]
      · have above' : (forest.unrooted root).parent? node = some parent := by
          simp [above, Option.filter_some, top]
        rw [detach, detach, above, above']
        simp only [isAssigned_unrooted, changeNode_unrooted (Node.emptied_without · node),
          setParentLink_unrooted (Option.some_ne_none root).symm, store_unrooted]
        split <;> rfl

theorem orphan_unrooted (operand : Option Handle) :
    (forest.unrooted root).orphan operand = (forest.orphan operand).unrooted root := by
  cases operand with
  | none => rfl
  | some node => exact setParentLink_unrooted (Option.some_ne_none root).symm

theorem place_unrooted {binary : Handle} (different : binary ≠ root) (side : Side)
    (child : Option Handle) :
    (forest.unrooted root).place binary side child =
      (forest.place binary side child).unrooted root := by
  have commutes (content : Node) := content.emptied_withOperand side child
  cases child with
  | none =>
      rw [place, place, operand?_unrooted, orphan_unrooted]
      exact changeNode_unrooted commutes
  | some node =>
      rw [place, place, operand?_unrooted, orphan_unrooted, changeNode_unrooted commutes]
      exact setParentLink_unrooted (by simpa using different)

theorem link_unrooted (group : forest.node? root = some (.group members)) {binary : Handle}
    (different : binary ≠ root) (side : Side) (child : Option Handle) :
    (forest.unrooted root).link binary side child =
      (forest.link binary side child).unrooted root := by
  cases child with
  | none => exact place_unrooted different side none
  | some node =>
      have above : (forest.unrooted root).parent? node = some binary ↔
          forest.parent? node = some binary := by
        rw [parent?_unrooted, Option.filter_eq_some_iff]
        simp [different]
      simp only [link, above, operand?_unrooted, detach_unrooted group,
        place_unrooted different]
      split <;> rfl

theorem linkBoth_unrooted (linked : forest.Linked)
    (group : forest.node? root = some (.group members)) {binary : Handle}
    (different : binary ≠ root) (operator : Operator) (left right : Option Handle)
    (value : Option Number) :
    (forest.unrooted root).linkBoth operator binary left right value =
      (forest.linkBoth operator binary left right value).unrooted root := by
  obtain ⟨members', group'⟩ :=
    exists_group_of_bare (linked.bare_node?_link binary root .left left).symm group
  rw [linkBoth, linkBoth, link_unrooted group different, link_unrooted group' different,
    store_unrooted]
  split <;> rfl

/-! ### Making and removing trees -/

theorem addBinary_unrooted (linked : forest.Linked)
    (group : forest.node? root = some (.group members)) (operator : Operator)
    (left : Option Handle) {right : Option Handle}
    (single : ∀ node ∈ right, forest.Single node) :
    (forest.unrooted root).addBinary operator left right =
      ((forest.addBinary operator left right).1,
        (forest.addBinary operator left right).2.unrooted root) := by
  rw [addBinary, addBinary]
  split
  next => rfl
  next =>
    rw [prepare_unrooted operator left single]
    obtain ⟨outcome, table, prepared⟩ := forest.prepare_eq operator left right
    rw [prepared]
    cases outcome with
    | error fault => rfl
    | ok value =>
        have before := linked.withTable table
        have different := ne_of_fresh group
          (node?_allocate_handle before.formed (.binary operator none none))
        have located := node?_allocate before.formed (.binary operator none none) root
        rw [if_neg different] at located
        dsimp only
        rw [allocate_unrooted rfl]
        dsimp only
        rw [checkOperand_unrooted, checkOperand_unrooted]
        split
        next => rw [release_unrooted]
        next =>
          have made : (allocate { forest with table } (.binary operator none none)).2.Linked :=
            before.allocate rfl
          rw [linkBoth_unrooted made (located.trans group) different.symm]

end Moving

theorem addVariable_unrooted (name : String) (value : Option Number) :
    (forest.unrooted root).addVariable name value =
      (forest.addVariable name value).map fun made => (made.1, made.2.unrooted root) := by
  rw [addVariable, addVariable]
  change (forest.table.resolve name value >>= _) = _
  cases forest.table.resolve name value with
  | error fault => rfl
  | ok settled =>
      let declared : Forest := { forest with table := settled.2 }
      have made : (declared.unrooted root).allocate (.variable name) = _ := allocate_unrooted rfl
      exact congrArg Except.ok made

/-- The node is no group, and no other node has it for a child. -/
structure Alone (forest : Forest) (node : Handle) : Prop where
  root : forest.parent? node = none
  single : forest.Single node

theorem Alone.removeTree {other : Handle} (alone : forest.Alone node)
    (above : forest.parent? other = none) : (forest.removeTree other).Alone node := by
  refine ⟨parent?_removeTree_of_root above alone.root, fun members group => ?_⟩
  rw [Forest.removeTree, detach_of_root above, node?_releaseAll_eq_some_iff] at group
  exact alone.single members group.2

theorem Alone.removeTree_unrooted (alone : forest.Alone node) :
    (forest.unrooted root).removeTree node = (forest.removeTree node).unrooted root := by
  have above : (forest.unrooted root).parent? node = none := by simp [alone.root]
  rw [Forest.removeTree, Forest.removeTree, detach_of_root alone.root, detach_of_root above,
    alone.single.sweep_unrooted, releaseAll_unrooted]

theorem Same.alone {forest' : Forest} (same : forest.Same forest') (alone : forest.Alone node) :
    forest'.Alone node := by
  refine ⟨(same node).2.trans alone.root, fun members group => ?_⟩
  exact alone.single members ((same node).1.symm.trans group)

theorem Grafted.alone {forest' last : Forest} {expr : Expr}
    (grafted : forest.Grafted expr node forest') (kept : forest'.Extends last) :
    last.Alone node := by
  obtain ⟨content, located, single⟩ := grafted.linked.live_of_expr? grafted.expr?
  obtain ⟨located', above⟩ := kept node content located
  exact ⟨above.trans grafted.root, single_of_located located' single⟩

/-- Each node of the expression is made and linked without a look at the root. -/
theorem Linked.graft_unrooted (linked : forest.Linked) {members : List Handle}
    (group : forest.node? root = some (.group members)) (expr : Expr) :
    (forest.unrooted root).graft expr =
      ((forest.graft expr).1, (forest.graft expr).2.unrooted root) := by
  -- Whatever has been built stands alone, so the members of the group make no difference.
  induction expr generalizing forest members with
  | number value =>
      have single : (Node.constant value).isGroup = false := rfl
      rw [Forest.graft, Forest.graft, addConstant, addConstant, allocate_unrooted single]
  | «variable» name =>
      rw [Forest.graft, Forest.graft, addVariable_unrooted]
      cases forest.addVariable name none <;> rfl
  | binary operator left right leftHypothesis rightHypothesis =>
      rw [Forest.graft, Forest.graft, leftHypothesis linked group]
      have first := linked.grafts left
      rcases done : forest.graft left with ⟨fault | low, middle⟩
      · rfl
      · rw [done] at first
        have linked' := first.grafted.linked
        obtain ⟨group', -⟩ := first.grafted.kept root _ group
        have second := linked'.grafts right
        dsimp only
        rw [rightHypothesis linked' group']
        rcases done' : middle.graft right with ⟨fault | high, last⟩
        · rw [done'] at second
          cases second with
          | refused linked'' same =>
              dsimp only
              rw [(first.grafted.alone same.extends).removeTree_unrooted]
        · rw [done'] at second
          have linked'' := second.grafted.linked
          obtain ⟨group'', -⟩ := second.grafted.kept root _ group'
          have lowAlone := first.grafted.alone second.grafted.kept
          have highAlone : last.Alone high := second.grafted.alone fun _ _ found => ⟨found, rfl⟩
          dsimp only
          rw [addBinary_unrooted linked'' group'' operator (some low) (by
            rintro _ ⟨⟩
            exact highAlone.single)]
          rcases linked''.addBinary_cases operator lowAlone.root highAlone.root
            (first.grafted.different second.grafted) with
            ⟨node, joined, added, -⟩ | ⟨fault, refused, added, same⟩
          · rw [added]
          · rw [added]
            have lowAlone := same.alone lowAlone
            have highAlone := (same.alone highAlone).removeTree lowAlone.root
            dsimp only
            rw [lowAlone.removeTree_unrooted, highAlone.removeTree_unrooted]

/-! ### Gathering -/

section Gathering

variable {forest' : Forest} {members : List Handle}

theorem exists_group_of_unrooted (same : forest'.unrooted root = forest.unrooted root)
    (group : forest.node? root = some (.group members)) :
    ∃ members', forest'.node? root = some (.group members') := by
  have located := congrArg (·.node? root) same
  simp only [node?_unrooted, group, Option.map_some, Option.map_eq_some_iff] at located
  obtain ⟨content, located, emptied⟩ := located
  cases content with
  | group members' => exact ⟨members', located⟩
  | _ => cases emptied

theorem unrooted_detach (group : forest.node? root = some (.group members))
    (hanging : (forest.unrooted root).parent? node = none) :
    (forest.detach node).unrooted root = forest.unrooted root := by
  rw [← detach_unrooted group, detach_of_root hanging]

theorem unrooted_adopt (group : forest.node? root = some (.group members))
    (hanging : (forest.unrooted root).parent? node = none) :
    (forest.adopt root node).unrooted root = forest.unrooted root := by
  have off := unrooted_detach group hanging
  obtain ⟨members', group'⟩ := exists_group_of_unrooted off group
  have told : ((forest.detach node).changeNode root (·.withMember node)).unrooted root =
      forest.unrooted root := (unrooted_changeNode group' rfl).trans off
  rw [adopt, unrooted_setParentLink (by rw [told, hanging]) (by simp), told]

theorem unrooted_foldl {step : Forest → Handle → Forest}
    (forgotten : ∀ forest : Forest, ∀ node members, forest.node? root = some (.group members) →
      (forest.unrooted root).parent? node = none →
        (step forest node).unrooted root = forest.unrooted root)
    (group : forest.node? root = some (.group members)) {nodes : List Handle}
    (hanging : ∀ node ∈ nodes, (forest.unrooted root).parent? node = none) :
    (nodes.foldl step forest).unrooted root = forest.unrooted root := by
  induction nodes generalizing forest members with
  | nil => rfl
  | cons node rest inductionHypothesis =>
      have same := forgotten forest node members group (hanging node List.mem_cons_self)
      obtain ⟨members', group'⟩ := exists_group_of_unrooted same group
      rw [List.foldl_cons, inductionHypothesis group' fun other later => ?_, same]
      rw [same]
      exact hanging other (List.mem_cons_of_mem node later)

end Gathering

/-! ### Equality -/

theorem Linked.parent?_congr {forest' : Forest} (linked : forest.Linked) (linked' : forest'.Linked)
    (same : forest'.node? = forest.node?) : forest'.parent? = forest.parent? := by
  funext node
  apply Option.ext
  intro parent
  rw [← linked.isChild_iff, ← linked'.isChild_iff, IsChild, IsChild, same]

/-- Forests with the same nodes are equal if they use their slots in the same way. -/
theorem Linked.eq_of_unrooted {forest' : Forest} (linked : forest.Linked)
    (linked' : forest'.Linked) (slots : forest'.unrooted root = forest.unrooted root)
    (same : forest'.node? = forest.node?) : forest' = forest := by
  have above := linked.parent?_congr linked' same
  have cells : forest'.cells = forest.cells := by
    apply Pool.eq_of_map_eq (congrArg cells slots)
    intro node
    have here := congrFun same node
    have up := congrFun above node
    rw [node?, node?] at here
    rw [parent?, parent?] at up
    cases found : forest.cells.get? node with
    | none =>
        rw [found, Option.map_none, Option.map_eq_none_iff] at here
        exact here
    | some cell =>
        rw [found, Option.map_some, Option.map_eq_some_iff] at here
        obtain ⟨cell', found', content⟩ := here
        rw [found, found', Option.bind_some, Option.bind_some] at up
        rw [found']
        cases cell
        cases cell'
        simp_all
  have table : (forest'.unrooted root).table = (forest.unrooted root).table := by rw [slots]
  cases forest
  cases forest'
  rw [mk.injEq]
  exact ⟨cells, table⟩

end Forest

end Worksheet
