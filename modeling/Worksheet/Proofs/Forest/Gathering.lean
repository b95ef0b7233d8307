import Worksheet.Proofs.Forest.Edits

/-!
# Gathering trees below a group

Trees that stand alone or below one group can be taken out of the group, put back into it
and removed.  Nothing of this changes another one of the trees, or a variable.
-/

namespace Worksheet

namespace Forest

variable {forest : Forest} {group child : Handle} {members : List Handle}

/-- Nothing but the group is above the node. -/
def Outermost (forest : Forest) (group node : Handle) : Prop :=
  ∀ parent, forest.parent? node = some parent → parent = group

theorem outermost_of_root {node : Handle} (root : forest.parent? node = none) :
    forest.Outermost group node := by
  intro parent above
  rw [root] at above
  cases above

/-! ### Trees that stand apart -/

theorem Linked.below_or_below (linked : forest.Linked) {low first second : Handle}
    (below : forest.Below low first) (below' : forest.Below low second) :
    forest.Below first second ∨ forest.Below second first := by
  induction below using Relation.ReflTransGen.head_induction_on with
  | refl => exact .inl below'
  | @head low next up rest inductionHypothesis =>
      rcases below'.cases_head with rfl | ⟨next', up', rest'⟩
      · exact .inr (.head up rest)
      · have same := linked.parent?_of_child low next' up'
        rw [linked.parent?_of_child low next up] at same
        cases same
        exact inductionHypothesis rest'

theorem Linked.eq_of_below_of_outermost (linked : forest.Linked)
    (located : forest.node? group = some (.group members)) {low high : Handle}
    (outermost : forest.Outermost group low) (single : high ≠ group)
    (below : forest.Below low high) : low = high := by
  rcases below.cases_head with same | ⟨next, up, rest⟩
  · exact same
  · rw [outermost next (linked.parent?_of_child low next up)] at rest
    have same := linked.eq_of_below_of_root rest (linked.group_parent? group members located)
    exact absurd same.symm single

theorem Linked.apart_of_outermost (linked : forest.Linked)
    (located : forest.node? group = some (.group members)) {low first second : Handle}
    (outermost : forest.Outermost group first) (outermost' : forest.Outermost group second)
    (single : first ≠ group) (single' : second ≠ group) (different : first ≠ second)
    (below : forest.Below low first) : ¬forest.Below low second := by
  intro below'
  rcases linked.below_or_below below below' with up | up
  · exact different (linked.eq_of_below_of_outermost located outermost single' up)
  · exact different (linked.eq_of_below_of_outermost located outermost' single up).symm

/-! ### Taking members out -/

theorem Linked.node?_detach_of_outermost (linked : forest.Linked)
    (located : forest.node? group = some (.group members))
    (outermost : forest.Outermost group child) (other : Handle) :
    (forest.detach child).node? other =
      if other = group then some (.group (members.filter (· ≠ child)))
      else forest.node? other := by
  rw [linked.node?_detach]
  split
  next same =>
    rw [same, located]
    rfl
  next different =>
    cases found : forest.node? other with
    | none => rfl
    | some content =>
        have absent : child ∉ content.children :=
          linked.not_mem_children found fun above => different (outermost other above)
        rw [Option.map_some, Node.without_of_not_mem absent]

theorem table_detach_of_outermost (located : forest.node? group = some (.group members))
    (outermost : forest.Outermost group child) : (forest.detach child).table = forest.table := by
  unfold detach
  split
  next => rfl
  next parent above =>
    have unassigned : forest.isAssigned parent child = false := by
      rw [isAssigned, outermost parent above, located]
    rw [unassigned]
    rfl

theorem Linked.detachAll_of_outermost (linked : forest.Linked)
    (located : forest.node? group = some (.group members)) {nodes : List Handle}
    (outermost : ∀ node ∈ nodes, forest.Outermost group node) :
    (∀ other, (nodes.foldl Forest.detach forest).node? other =
      if other = group then some (.group (members.filter (· ∉ nodes)))
      else forest.node? other) ∧
    (∀ other, (nodes.foldl Forest.detach forest).parent? other =
      if other ∈ nodes then none else forest.parent? other) ∧
    (nodes.foldl Forest.detach forest).table = forest.table := by
  induction nodes generalizing forest members with
  | nil => simp [located]
  | cons node rest inductionHypothesis =>
      have here := outermost node List.mem_cons_self
      have step := linked.node?_detach_of_outermost located here
      have located' := step group
      rw [if_pos rfl] at located'
      obtain ⟨nodes, parents, table⟩ := inductionHypothesis (linked.detach node) located'
        fun other later parent above => by
          rw [parent?_detach] at above
          split at above
          next => cases above
          next => exact outermost other (List.mem_cons_of_mem node later) parent above
      refine ⟨fun other => ?_, fun other => ?_, ?_⟩
      · rw [List.foldl_cons, nodes, step]
        split
        next => simp [List.filter_filter, Bool.and_comm]
        next => rfl
      · rw [List.foldl_cons, parents, parent?_detach]
        by_cases same : other = node <;> by_cases later : other ∈ rest <;> simp [same, later]
      · rw [List.foldl_cons, table, table_detach_of_outermost located here]

/-- An emptied group has no members, and no node has it as its parent. -/
theorem Linked.detachMembers_of_group (linked : forest.Linked)
    (located : forest.node? group = some (.group members)) :
    (∀ other, (forest.detachMembers group).node? other =
      if other = group then some (.group []) else forest.node? other) ∧
    (∀ other, (forest.detachMembers group).parent? other =
      if forest.parent? other = some group then none else forest.parent? other) ∧
    (forest.detachMembers group).table = forest.table := by
  have member_iff (other : Handle) : other ∈ members ↔ forest.parent? other = some group := by
    rw [← linked.isChild_iff, IsChild, located]
    simp [Node.children]
  have emptied : forest.detachMembers group = members.foldl Forest.detach forest := by
    rw [Forest.detachMembers, located]
  have inside : ∀ node ∈ members, forest.Outermost group node := by
    intro node member parent above
    rw [(member_iff node).mp member] at above
    exact (Option.some.inj above).symm
  have kept : members.filter (fun node => decide (node ∉ members)) = [] := by
    apply List.filter_eq_nil_iff.mpr
    intro node member
    simp [member]
  obtain ⟨nodes, parents, table⟩ := linked.detachAll_of_outermost located inside
  rw [emptied]
  refine ⟨fun other => ?_, fun other => ?_, table⟩
  · rw [nodes, kept]
  · rw [parents]
    simp only [member_iff]

/-! ### Putting members in -/

theorem adopt_of_root (located : forest.node? group = some (.group members)) {content : Node}
    (found : forest.node? child = some content) (root : forest.parent? child = none)
    (different : child ≠ group) :
    (∀ other, (forest.adopt group child).node? other =
      if other = group then some (.group (members ++ [child])) else forest.node? other) ∧
    (∀ other, (forest.adopt group child).parent? other =
      if other = child then some group else forest.parent? other) ∧
    (forest.adopt group child).table = forest.table := by
  rw [Forest.adopt, detach_of_root root]
  exact ⟨node?_hang located, parent?_hang found different, rfl⟩

theorem adoptAll_of_root (located : forest.node? group = some (.group members))
    {nodes : List Handle} (different : nodes.Nodup)
    (found : ∀ node ∈ nodes, ∃ content, forest.node? node = some content)
    (root : ∀ node ∈ nodes, forest.parent? node = none) (apart : group ∉ nodes) :
    (∀ other, (nodes.foldl (fun forest node => forest.adopt group node) forest).node? other =
      if other = group then some (.group (members ++ nodes)) else forest.node? other) ∧
    (∀ other, (nodes.foldl (fun forest node => forest.adopt group node) forest).parent? other =
      if other ∈ nodes then some group else forest.parent? other) ∧
    (nodes.foldl (fun forest node => forest.adopt group node) forest).table = forest.table := by
  -- The group grows at its end, so the members are those of the moment.
  induction nodes generalizing forest members with
  | nil => simp [located]
  | cons node rest inductionHypothesis =>
      obtain ⟨content, here⟩ := found node List.mem_cons_self
      have single : node ≠ group := fun same => apart (same ▸ List.mem_cons_self)
      have ⟨fresh, different⟩ := List.nodup_cons.mp different
      obtain ⟨stepNodes, stepParents, stepTable⟩ :=
        adopt_of_root located here (root node List.mem_cons_self) single
      have located' := stepNodes group
      rw [if_pos rfl] at located'
      have found' : ∀ other ∈ rest, ∃ content,
          (forest.adopt group node).node? other = some content := by
        intro other later
        obtain ⟨content, there⟩ := found other (List.mem_cons_of_mem node later)
        refine ⟨content, ?_⟩
        rw [stepNodes, if_neg, there]
        rintro rfl
        exact apart (List.mem_cons_of_mem node later)
      have root' : ∀ other ∈ rest, (forest.adopt group node).parent? other = none := by
        intro other later
        rw [stepParents, if_neg, root other (List.mem_cons_of_mem node later)]
        rintro rfl
        exact fresh later
      obtain ⟨nodes, parents, table⟩ := inductionHypothesis located' different found' root'
        fun member => apart (List.mem_cons_of_mem node member)
      refine ⟨fun other => ?_, fun other => ?_, ?_⟩
      · rw [List.foldl_cons, nodes, stepNodes, List.append_assoc]
        split <;> rfl
      · rw [List.foldl_cons, parents, stepParents]
        by_cases same : other = node <;> by_cases later : other ∈ rest <;> simp [same, later]
      · rw [List.foldl_cons, table, stepTable]

/-- A group is refused nothing but other groups. -/
theorem Linked.groupPush_eq_ok (linked : forest.Linked)
    (located : ∃ members, forest.node? group = some (.group members)) {content : Node}
    (found : forest.node? child = some content) (single : content.isGroup = false) :
    forest.groupPush group child = .ok (forest.adopt group child) := by
  obtain ⟨members, located⟩ := located
  have checked : forest.checkChild group child = .ok () := by
    refine linked.checkChild_eq_ok_iff.mpr ⟨_, content, located, found, ?_, fun below => ?_⟩
    · exact Node.misplacement?_eq_none_iff.mpr ⟨single, rfl, fun _ => rfl⟩
    · have same := linked.eq_of_below_of_root below (linked.group_parent? group members located)
      subst same
      cases located.symm.trans found
      cases single
  refine bind_eq_ok_iff.mpr ⟨members, members_eq_ok_iff.mpr located, ?_⟩
  exact bind_eq_ok_iff.mpr ⟨(), checked, rfl⟩

theorem Linked.groupPushAll_eq_ok (linked : forest.Linked) {nodes : List Handle}
    (located : ∃ members, forest.node? group = some (.group members))
    (found : ∀ node ∈ nodes, ∃ content,
      forest.node? node = some content ∧ content.isGroup = false) :
    nodes.foldlM (fun forest node => forest.groupPush group node) forest =
      .ok (nodes.foldl (fun forest node => forest.adopt group node) forest) := by
  induction nodes generalizing forest with
  | nil => rfl
  | cons node rest inductionHypothesis =>
      obtain ⟨content, here, single⟩ := found node List.mem_cons_self
      have pushed := linked.groupPush_eq_ok located here single
      obtain ⟨members, located⟩ := located
      have located' :=
        exists_group_of_bare (linked.bare_node?_adopt group node group).symm located
      rw [List.foldlM_cons, pushed, List.foldl_cons]
      refine inductionHypothesis (linked.groupPush pushed) located' fun other later => ?_
      exact linked.single_adopt group node (found other (List.mem_cons_of_mem node later))

/-! ### Removing a tree -/

theorem Linked.removeTree_of_outermost (linked : forest.Linked)
    (located : forest.node? group = some (.group members)) {node : Handle}
    (outermost : forest.Outermost group node) (single : node ≠ group) :
    (∀ other, ¬forest.Below other node → (forest.removeTree node).node? other =
      if other = group then some (.group (members.filter (· ≠ node)))
      else forest.node? other) ∧
    (∀ other, ¬forest.Below other node →
      (forest.removeTree node).parent? other = forest.parent? other) ∧
    (forest.removeTree node).table = forest.table := by
  have kept {other : Handle} (apart : ¬forest.Below other node) :
      other ∉ (forest.detach node).sweep node := by
    rw [(linked.detach node).mem_sweep]
    exact fun below => apart (linked.below_of_detach below)
  refine ⟨fun other apart => ?_, fun other apart => ?_, ?_⟩
  · rw [Forest.removeTree, node?_releaseAll, if_neg (kept apart),
      linked.node?_detach_of_outermost located outermost]
  · rw [Forest.removeTree, parent?_releaseAll, if_neg (kept apart), parent?_detach, if_neg]
    rintro rfl
    exact apart .refl
  · rw [Forest.removeTree, table_releaseAll, table_detach_of_outermost located outermost]

theorem Linked.below_detach_iff (linked : forest.Linked) {node other : Handle} :
    (forest.detach node).Below other node ↔ forest.Below other node := by
  refine ⟨linked.below_of_detach, fun below => ?_⟩
  induction below using Relation.ReflTransGen.head_induction_on with
  | refl => exact .refl
  | @head low next up rest inductionHypothesis =>
      refine .head (linked.isChild_detach_iff.mpr ⟨up, ?_⟩) inductionHypothesis
      rintro rfl
      exact linked.not_below_of_isChild up rest

theorem Linked.node?_removeTree_of_below (linked : forest.Linked) {node other : Handle}
    (below : forest.Below other node) : (forest.removeTree node).node? other = none := by
  rw [Forest.removeTree, node?_releaseAll, if_pos]
  exact (linked.detach node).mem_sweep.mpr (linked.below_detach_iff.mpr below)

end Forest

end Worksheet
