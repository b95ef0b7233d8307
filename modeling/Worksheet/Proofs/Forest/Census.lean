import Worksheet.Proofs.Forest.Gathering
import Worksheet.Proofs.Forest.Operation
import Worksheet.Proofs.Forest.Outcome

/-!
# Counting nodes

A sweep comes to each node below its start once.  So where one group is above all nodes,
they are as many as the trees of its members have, and the group.
-/

namespace Worksheet

namespace Forest

variable {forest : Forest}

theorem Linked.apart_of_siblings (linked : forest.Linked) {low first second parent : Handle}
    (down : forest.IsChild first parent) (down' : forest.IsChild second parent)
    (different : first ≠ second) (below : forest.Below low first) :
    ¬forest.Below low second := by
  -- Of two siblings neither is below the other, since the way up leads over their parent.
  have beside {one other : Handle} (down : forest.IsChild one parent)
      (down' : forest.IsChild other parent) (different : one ≠ other) :
      ¬forest.Below one other := by
    intro below
    rcases below.cases_head with same | ⟨next, up, rest⟩
    · exact different same
    · have above := linked.parent?_of_child one next up
      rw [linked.parent?_of_child one parent down] at above
      cases above
      exact linked.not_below_of_isChild down' rest
  intro below'
  rcases linked.below_or_below below below' with up | up
  · exact beside down down' different up
  · exact beside down' down different.symm up

theorem Linked.nodup_children (linked : forest.Linked) {node : Handle} {content : Node}
    (located : forest.node? node = some content) : content.children.Nodup := by
  apply List.nodup_iff_count_le_one.mpr
  intro child
  by_cases member : child ∈ content.children
  · have above := linked.parent?_of_child child node ⟨content, located, member⟩
    obtain ⟨content', found, once⟩ := linked.count_of_parent? child node above
    cases located.symm.trans found
    exact once.le
  · rw [List.count_eq_zero_of_not_mem member]
    exact Nat.zero_le 1

theorem sweep_of_not_group {id : Handle}
    (single : ∀ members, forest.node? id ≠ some (.group members)) :
    forest.sweep id = (forest.tree id).sweep := by
  rw [sweep]
  split
  next members located => exact absurd located (single members)
  next => rfl

theorem Linked.sweep_eq (linked : forest.Linked) {id : Handle} {content : Node}
    (located : forest.node? id = some content) :
    forest.sweep id = id :: content.children.reverse.flatMap forest.sweep := by
  have inside {child : Handle} (member : child ∈ content.children) :
      forest.sweep child = (forest.tree child).sweep :=
    sweep_of_not_group (linked.child_not_group ⟨content, located, member⟩)
  cases content with
  | group members =>
      rw [sweep, located]
      refine congrArg (id :: ·) (List.flatMap_congr fun child member => ?_)
      exact (inside (List.mem_reverse.mp member)).symm
  | binary operator left right =>
      rw [sweep, located, linked.tree_eq, located]
      cases left <;> cases right <;>
        simp_all [Tree.ofNode, Tree.ofOperand, Tree.sweep, Node.children]
  | _ =>
      rw [sweep, located, linked.tree_eq, located]
      rfl

theorem Linked.nodup_sweep (linked : forest.Linked) (id : Handle) : (forest.sweep id).Nodup := by
  induction id using linked.tree_induction with
  | _ id inductionHypothesis =>
    cases located : forest.node? id with
    | none =>
        have lost : forest.sweep id = [id] := by
          rw [sweep, located, linked.tree_eq, located]
          rfl
        rw [lost]
        exact List.nodup_singleton id
    | some content =>
        have inside {child : Handle} (member : child ∈ content.children.reverse) :
            forest.IsChild child id := ⟨content, located, List.mem_reverse.mp member⟩
        rw [linked.sweep_eq located, List.nodup_cons, List.nodup_flatMap]
        refine ⟨?_, ?_, ?_⟩
        · intro above
          obtain ⟨child, member, swept⟩ := List.mem_flatMap.mp above
          exact linked.not_below_of_isChild (inside member) (linked.mem_sweep.mp swept)
        · exact fun child member => inductionHypothesis child (inside member)
        · have distinct := List.nodup_reverse.mpr (linked.nodup_children located)
          apply distinct.imp_of_mem
          intro first second member member' different low swept swept'
          exact linked.apart_of_siblings (inside member) (inside member') different
            (linked.mem_sweep.mp swept) (linked.mem_sweep.mp swept')

theorem Linked.isLive_of_mem_sweep (linked : forest.Linked) {id low : Handle}
    (live : forest.isLive id = true) (swept : low ∈ forest.sweep id) :
    forest.isLive low = true := by
  obtain ⟨content, located⟩ := isLive_iff.mp live
  exact isLive_iff.mpr (linked.live_of_below located (linked.mem_sweep.mp swept))

theorem Linked.size_eq_length_nodes (linked : forest.Linked) :
    forest.size = forest.nodes.length :=
  Pool.size_eq_length_handles linked.formed

theorem Linked.size_eq_length (linked : forest.Linked) {nodes : List Handle}
    (distinct : nodes.Nodup) (live : ∀ node, node ∈ nodes ↔ forest.isLive node = true) :
    forest.size = nodes.length := by
  have same : forest.nodes.Perm nodes :=
    (List.perm_ext_iff_of_nodup (Pool.nodup_handles forest.cells) distinct).mpr
      fun node => mem_nodes_iff.trans (live node).symm
  exact linked.size_eq_length_nodes.trans same.length_eq

theorem Linked.size_of_same {after : Forest} (linked : forest.Linked) (linked' : after.Linked)
    (same : forest.Same after) : after.size = forest.size := by
  rw [linked.size_eq_length_nodes]
  apply linked'.size_eq_length (Pool.nodup_handles forest.cells)
  exact fun node => mem_nodes_iff.trans same.isLive_iff.symm

/-- Where one group is above all nodes, they are counted tree by tree. -/
theorem Linked.size_eq_of_group (linked : forest.Linked) {group : Handle}
    {members : List Handle} (located : forest.node? group = some (.group members))
    (above : ∀ node, forest.isLive node = true → forest.Below node group) :
    forest.size = 1 + (members.map fun member => (forest.sweep member).length).sum := by
  have swept (node : Handle) : node ∈ forest.sweep group ↔ forest.isLive node = true :=
    ⟨linked.isLive_of_mem_sweep (isLive_iff.mpr ⟨_, located⟩),
      fun live => linked.mem_sweep.mpr (above node live)⟩
  calc
    forest.size = (forest.sweep group).length :=
      linked.size_eq_length (linked.nodup_sweep group) swept
    _ = 1 + (members.reverse.map fun member => (forest.sweep member).length).sum := by
      rw [linked.sweep_eq located, List.length_cons, List.length_flatMap, Nat.add_comm]
      rfl
    _ = 1 + (members.map fun member => (forest.sweep member).length).sum := by
      rw [List.map_reverse, List.sum_reverse]

end Forest

end Worksheet
