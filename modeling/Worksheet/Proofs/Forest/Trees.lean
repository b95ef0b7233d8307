import Worksheet.Forest.Tree
import Worksheet.Proofs.Forest.Links

/-!
# Trees of a linked forest

Reading a tree hides the nodes on the way down.  In a linked forest nothing is read
twice, so the hiding makes no difference: a tree is its node over the trees of its
operands, and a sweep visits exactly the nodes below.
-/

namespace Worksheet

namespace Tree

def ofOperand (read : Handle → Tree) (operand : Option Handle) : Tree :=
  operand.elim .vacant read

/-- The tree of a node's content, with the trees of its operands read as told. -/
def ofNode (id : Handle) (read : Handle → Tree) : Option Node → Tree
  | none | some (.group _) => .lost id
  | some (.constant value) => .constant id value
  | some (.variable name) => .variable id name
  | some (.binary operator left right) =>
      .binary id operator (ofOperand read left) (ofOperand read right)

theorem ofCells_eq_ofNode (cells : Pool Cell) (id : Handle) :
    ofCells cells id = ofNode id (ofCells (cells.hide id)) ((cells.get? id).map Cell.node) := by
  rw [ofCells]
  split
  next missing => rw [missing, Option.map_none, ofNode]
  next cell found =>
    rw [found, Option.map_some]
    cases cell.node with
    | binary operator left right => cases left <;> cases right <;> rfl
    | _ => rfl

theorem ofNode_congr {id : Handle} {read read' : Handle → Tree} {content : Option Node}
    (same : ∀ node, content = some node → ∀ child ∈ node.children, read child = read' child) :
    ofNode id read content = ofNode id read' content := by
  cases content with
  | none => rfl
  | some node =>
      cases node with
      | binary operator left right =>
          have children := same _ rfl
          cases left <;> cases right <;> simp_all [ofNode, ofOperand, Node.children]
      | _ => rfl

end Tree

namespace Forest

variable {forest : Forest}

/-- Reading depends only on the contents below the node. -/
theorem ofCells_congr (acyclic : WellFounded forest.IsChild) (id : Handle) (cells : Pool Cell)
    (same : ∀ low, forest.Below low id → (cells.get? low).map Cell.node = forest.node? low) :
    Tree.ofCells cells id = forest.tree id := by
  induction id using acyclic.induction generalizing cells with
  | _ id inductionHypothesis =>
    rw [tree, Tree.ofCells_eq_ofNode, Tree.ofCells_eq_ofNode forest.cells, same id .refl, node?]
    refine Tree.ofNode_congr fun node located child member => ?_
    have down : forest.IsChild child id := ⟨node, located, member⟩
    have apart (low : Handle) (below : forest.Below low child) : low ≠ id := by
      rintro rfl
      exact acyclic.transGen.irrefl.irrefl low (.tail' below down)
    rw [inductionHypothesis child down (cells.hide id) fun low below => ?_,
      inductionHypothesis child down (forest.cells.hide id) fun low below => ?_]
    · rw [Pool.get?_hide, if_neg (apart low below), node?]
    · rw [Pool.get?_hide, if_neg (apart low below), same low (below.tail down)]

theorem Linked.tree_eq (linked : forest.Linked) (id : Handle) :
    forest.tree id = Tree.ofNode id forest.tree (forest.node? id) := by
  rw [tree, Tree.ofCells_eq_ofNode, ← node?]
  refine Tree.ofNode_congr fun node located child member => ?_
  have down : forest.IsChild child id := ⟨node, located, member⟩
  refine ofCells_congr linked.acyclic child _ fun low below => ?_
  have apart : low ≠ id := by
    rintro rfl
    exact linked.not_below_of_isChild down below
  rw [Pool.get?_hide, if_neg apart, node?]

/-- Two forests read the same tree where they agree on all nodes below. -/
theorem Linked.tree_congr (linked : forest.Linked) {forest' : Forest} {id : Handle}
    (same : ∀ low, forest.Below low id → forest'.node? low = forest.node? low) :
    forest'.tree id = forest.tree id :=
  ofCells_congr linked.acyclic id forest'.cells same

theorem Linked.tree_induction (linked : forest.Linked) {motive : Handle → Prop}
    (step : ∀ id, (∀ child, forest.IsChild child id → motive child) → motive id) (id : Handle) :
    motive id :=
  linked.acyclic.induction id step

/-! ### Sweeping -/

theorem below_iff {low high : Handle} :
    forest.Below low high ↔
      low = high ∨ ∃ child, forest.IsChild child high ∧ forest.Below low child := by
  constructor
  · intro below
    rcases below.cases_tail with same | ⟨child, rest, down⟩
    · exact .inl same.symm
    · exact .inr ⟨child, down, rest⟩
  · rintro (rfl | ⟨child, down, below⟩)
    · exact .refl
    · exact below.tail down

theorem mem_sweep_ofNode {id low : Handle} {read : Handle → Tree} {content : Option Node}
    (single : ∀ members, content ≠ some (.group members)) :
    low ∈ (Tree.ofNode id read content).sweep ↔
      low = id ∨
        ∃ node, content = some node ∧ ∃ child ∈ node.children, low ∈ (read child).sweep := by
  cases content with
  | none => simp [Tree.ofNode, Tree.sweep]
  | some node =>
      cases node with
      | group members => exact absurd rfl (single members)
      | binary operator left right =>
          cases left <;> cases right <;>
            simp [Tree.ofNode, Tree.ofOperand, Tree.sweep, Node.children, or_comm]
      | _ => simp [Tree.ofNode, Tree.sweep, Node.children]

theorem Linked.child_not_group (linked : forest.Linked) {child parent : Handle}
    (down : forest.IsChild child parent) (members : List Handle) :
    forest.node? child ≠ some (.group members) := by
  intro located
  have above := linked.parent?_of_child child parent down
  rw [linked.group_parent? child members located] at above
  cases above

theorem Linked.mem_sweep_tree (linked : forest.Linked) {id low : Handle}
    (single : ∀ members, forest.node? id ≠ some (.group members)) :
    low ∈ (forest.tree id).sweep ↔ forest.Below low id := by
  induction id using linked.tree_induction with
  | _ id inductionHypothesis =>
    rw [linked.tree_eq, mem_sweep_ofNode single, below_iff]
    refine or_congr_right ⟨?_, ?_⟩
    · rintro ⟨node, located, child, member, found⟩
      have down : forest.IsChild child id := ⟨node, located, member⟩
      exact ⟨child, down, (inductionHypothesis child down (linked.child_not_group down)).mp found⟩
    · rintro ⟨child, ⟨node, located, member⟩, below⟩
      have down : forest.IsChild child id := ⟨node, located, member⟩
      exact ⟨node, located, child, member,
        (inductionHypothesis child down (linked.child_not_group down)).mpr below⟩

theorem Linked.mem_sweep (linked : forest.Linked) {id low : Handle} :
    low ∈ forest.sweep id ↔ forest.Below low id := by
  rw [sweep]
  split
  next members located =>
    rw [List.mem_cons, List.mem_flatMap, below_iff]
    refine or_congr_right ⟨?_, ?_⟩
    · rintro ⟨child, member, found⟩
      have down : forest.IsChild child id := ⟨_, located, List.mem_reverse.mp member⟩
      exact ⟨child, down, (linked.mem_sweep_tree (linked.child_not_group down)).mp found⟩
    · rintro ⟨child, down, below⟩
      have ⟨node, found, member⟩ := down
      cases found.symm.trans located
      exact ⟨child, List.mem_reverse.mpr member,
        (linked.mem_sweep_tree (linked.child_not_group down)).mpr below⟩
  next single => exact linked.mem_sweep_tree single

theorem Linked.contains_iff (linked : forest.Linked) {node other : Handle} :
    forest.contains node other = true ↔ forest.Below other node := by
  rw [contains, decide_eq_true_eq, linked.mem_sweep]

end Forest

end Worksheet
