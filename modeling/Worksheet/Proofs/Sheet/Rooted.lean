import Worksheet.Proofs.Forest.Gathering
import Worksheet.Proofs.Forest.Outcome
import Worksheet.Sheet.Enter

/-!
# Rooted sheets

The trees that a sheet lists are whole expressions, and they stand apart below one group.
Hence a change of one of them is no change of the others.
-/

namespace Worksheet

theorem Tree.agrees_of_expr? {left right : Tree} {first second : Expr}
    (leftFound : left.expr? = some first) (rightFound : right.expr? = some second) :
    left.agrees right = first.agrees second := by
  induction left generalizing right first second with
  | constant id value =>
      cases leftFound
      cases right with
      | binary id' operator low high =>
          obtain ⟨_, _, -, -, rfl⟩ := expr?_binary_eq_some_iff.mp rightFound
          rfl
      | _ =>
          cases rightFound
          try rfl
  | «variable» id name =>
      cases leftFound
      cases right with
      | binary id' operator low high =>
          obtain ⟨_, _, -, -, rfl⟩ := expr?_binary_eq_some_iff.mp rightFound
          rfl
      | _ =>
          cases rightFound
          try rfl
  | binary id operator low high lowHypothesis highHypothesis =>
      obtain ⟨_, _, lowFound, highFound, rfl⟩ := expr?_binary_eq_some_iff.mp leftFound
      cases right with
      | binary id' operator' low' high' =>
          obtain ⟨_, _, lowFound', highFound', rfl⟩ := expr?_binary_eq_some_iff.mp rightFound
          rw [agrees, Expr.agrees, lowHypothesis lowFound lowFound',
            highHypothesis highFound highFound']
      | _ =>
          cases rightFound
          try rfl
  | _ => cases leftFound

namespace Sheet

variable {sheet : Sheet}

def exprs (sheet : Sheet) : List Expr :=
  sheet.listed.filterMap fun node => (sheet.forest.tree node).expr?

/-- The root is a group, and the listed trees are whole expressions with nothing but the
root above them. -/
structure Rooted (sheet : Sheet) : Prop where
  linked : sheet.forest.Linked
  root : ∃ members, sheet.forest.node? sheet.root = some (.group members)
  nodup_listed : sheet.listed.Nodup
  outermost_listed : ∀ node ∈ sheet.listed, sheet.forest.Outermost sheet.root node
  expr?_listed : ∀ node ∈ sheet.listed, ∃ expr,
    (sheet.forest.tree node).expr? = some expr ∧ expr.Readable sheet.kind

namespace Rooted

theorem live_of_mem (rooted : sheet.Rooted) {node : Handle} (member : node ∈ sheet.listed) :
    ∃ content, sheet.forest.node? node = some content ∧ content.isGroup = false := by
  obtain ⟨expr, found, -⟩ := rooted.expr?_listed node member
  exact rooted.linked.live_of_expr? found

theorem ne_root_of_mem (rooted : sheet.Rooted) {node : Handle} (member : node ∈ sheet.listed) :
    node ≠ sheet.root := by
  rintro rfl
  obtain ⟨members, group⟩ := rooted.root
  obtain ⟨content, located, single⟩ := rooted.live_of_mem member
  cases group.symm.trans located
  cases single

theorem ne_root_of_below (rooted : sheet.Rooted) {low node : Handle}
    (member : node ∈ sheet.listed) (below : sheet.forest.Below low node) : low ≠ sheet.root := by
  rintro rfl
  obtain ⟨members, group⟩ := rooted.root
  have same := rooted.linked.eq_of_below_of_root below
    (rooted.linked.group_parent? sheet.root members group)
  exact rooted.ne_root_of_mem member same.symm

theorem map_expr? (rooted : sheet.Rooted) :
    sheet.listed.map (fun node => (sheet.forest.tree node).expr?) = sheet.exprs.map some := by
  have whole : ∀ nodes : List Handle,
      (∀ node ∈ nodes, ∃ expr, (sheet.forest.tree node).expr? = some expr) →
      nodes.map (fun node => (sheet.forest.tree node).expr?) =
        (nodes.filterMap fun node => (sheet.forest.tree node).expr?).map some := by
    intro nodes found
    induction nodes with
    | nil => rfl
    | cons node rest inductionHypothesis =>
        obtain ⟨expr, here⟩ := found node List.mem_cons_self
        rw [List.map_cons, List.filterMap_cons, here,
          inductionHypothesis fun other later => found other (List.mem_cons_of_mem node later)]
        rfl
  apply whole
  intro node member
  obtain ⟨expr, found, -⟩ := rooted.expr?_listed node member
  exact ⟨expr, found⟩

theorem readable_of_mem_exprs (rooted : sheet.Rooted) {expr : Expr}
    (member : expr ∈ sheet.exprs) : expr.Readable sheet.kind := by
  obtain ⟨node, listed, found⟩ := List.mem_filterMap.mp member
  obtain ⟨expr', found', readable⟩ := rooted.expr?_listed node listed
  cases found.symm.trans found'
  exact readable

/-! ### Changes of the forest -/

/-- A sheet stays rooted if no listed tree changes and nothing new comes above one. -/
theorem of_same (rooted : sheet.Rooted) {forest : Forest} (linked : forest.Linked)
    (root : ∃ members, forest.node? sheet.root = some (.group members))
    {listed : List Handle} (nodup : listed.Nodup) (fewer : listed ⊆ sheet.listed)
    (outermost : ∀ node ∈ listed, forest.Outermost sheet.root node)
    (same : ∀ node ∈ listed, ∀ low, sheet.forest.Below low node →
      forest.node? low = sheet.forest.node? low) :
    ({ sheet with forest, listed } : Sheet).Rooted ∧
      ({ sheet with forest, listed } : Sheet).exprs =
        listed.filterMap fun node => (sheet.forest.tree node).expr? := by
  have tree : ∀ node ∈ listed, forest.tree node = sheet.forest.tree node :=
    fun node member => rooted.linked.tree_congr (same node member)
  refine ⟨⟨linked, root, nodup, outermost, fun node member => ?_⟩, ?_⟩
  · obtain ⟨expr, found, readable⟩ := rooted.expr?_listed node (fewer member)
    exact ⟨expr, (congrArg Tree.expr? (tree node member)).trans found, readable⟩
  · exact List.filterMap_congr fun node member => congrArg Tree.expr? (tree node member)

theorem of_extends (rooted : sheet.Rooted) {forest : Forest} (linked : forest.Linked)
    (kept : sheet.forest.Extends forest) :
    ({ sheet with forest } : Sheet).Rooted ∧
      ({ sheet with forest } : Sheet).exprs = sheet.exprs := by
  obtain ⟨members, group⟩ := rooted.root
  refine rooted.of_same linked ⟨members, (kept _ _ group).1⟩ rooted.nodup_listed
    (List.Subset.refl _) (fun node member parent above => ?_) fun node member low below => ?_
  · obtain ⟨content, located, -⟩ := rooted.live_of_mem member
    rw [(kept node content located).2] at above
    exact rooted.outermost_listed node member parent above
  · obtain ⟨content, located, -⟩ := rooted.live_of_mem member
    obtain ⟨lower, found⟩ := rooted.linked.live_of_below located below
    rw [(kept low lower found).1, found]

theorem withTable (rooted : sheet.Rooted) (table : Variables) :
    (sheet.withTable table).Rooted ∧ (sheet.withTable table).exprs = sheet.exprs :=
  rooted.of_extends (rooted.linked.withTable table) fun _ _ located => ⟨located, rfl⟩

theorem of_perm (rooted : sheet.Rooted) {listed : List Handle}
    (same : listed.Perm sheet.listed) : ({ sheet with listed } : Sheet).Rooted := by
  refine ⟨rooted.linked, rooted.root, same.nodup_iff.mpr rooted.nodup_listed, ?_, ?_⟩
  · exact fun node member => rooted.outermost_listed node (same.mem_iff.mp member)
  · exact fun node member => rooted.expr?_listed node (same.mem_iff.mp member)

theorem grafted (rooted : sheet.Rooted) {expr : Expr} (readable : expr.Readable sheet.kind)
    {node : Handle} {forest : Forest} (grafted : sheet.forest.Grafted expr node forest) :
    ({ sheet with forest, listed := sheet.listed ++ [node] } : Sheet).Rooted ∧
      ({ sheet with forest, listed := sheet.listed ++ [node] } : Sheet).exprs =
        sheet.exprs ++ [expr] := by
  obtain ⟨old, exprs⟩ := rooted.of_extends grafted.linked grafted.kept
  have fresh : node ∉ sheet.listed := by
    intro member
    obtain ⟨content, located, -⟩ := rooted.live_of_mem member
    cases grafted.fresh.symm.trans located
  refine ⟨⟨old.linked, old.root, ?_, fun other member => ?_, fun other member => ?_⟩, ?_⟩
  · rw [List.nodup_append_comm]
    exact List.nodup_cons.mpr ⟨fresh, rooted.nodup_listed⟩
  · rcases List.mem_append.mp member with before | new
    · exact old.outermost_listed other before
    · rw [List.mem_singleton.mp new]
      exact Forest.outermost_of_root grafted.root
  · rcases List.mem_append.mp member with before | new
    · exact old.expr?_listed other before
    · rw [List.mem_singleton.mp new]
      exact ⟨expr, grafted.expr?, readable⟩
  · rw [← exprs]
    simp only [Sheet.exprs, List.filterMap_append]
    congr 1
    rw [List.filterMap_cons, grafted.expr?]
    rfl

theorem apart_of_mem (rooted : sheet.Rooted) {low first second : Handle}
    (member : first ∈ sheet.listed) (member' : second ∈ sheet.listed) (different : first ≠ second)
    (below : sheet.forest.Below low first) : ¬sheet.forest.Below low second := by
  obtain ⟨members, group⟩ := rooted.root
  exact rooted.linked.apart_of_outermost group (rooted.outermost_listed first member)
    (rooted.outermost_listed second member') (rooted.ne_root_of_mem member)
    (rooted.ne_root_of_mem member') different below

/-- Removing a listed tree leaves the other nodes alone, up to the members of the root. -/
theorem removeTree_links (rooted : sheet.Rooted) {node : Handle} (member : node ∈ sheet.listed) :
    (∃ members, (sheet.forest.removeTree node).node? sheet.root = some (.group members)) ∧
    (∀ other, ¬sheet.forest.Below other node → other ≠ sheet.root →
      (sheet.forest.removeTree node).node? other = sheet.forest.node? other) ∧
    (∀ other, ¬sheet.forest.Below other node →
      (sheet.forest.removeTree node).parent? other = sheet.forest.parent? other) ∧
    (sheet.forest.removeTree node).table = sheet.table := by
  obtain ⟨members, group⟩ := rooted.root
  obtain ⟨nodes, parents, table⟩ := rooted.linked.removeTree_of_outermost group
    (rooted.outermost_listed node member) (rooted.ne_root_of_mem member)
  have root : ¬sheet.forest.Below sheet.root node :=
    fun below => rooted.ne_root_of_below member below rfl
  refine ⟨⟨_, (nodes sheet.root root).trans (if_pos rfl)⟩, ?_, parents, table⟩
  intro other apart different
  rw [nodes other apart, if_neg different]

theorem node?_removeTree (rooted : sheet.Rooted) {node other low : Handle}
    (member : node ∈ sheet.listed) (listed : other ∈ sheet.listed.erase node)
    (below : sheet.forest.Below low other) :
    (sheet.forest.removeTree node).node? low = sheet.forest.node? low := by
  have ⟨different, before⟩ := rooted.nodup_listed.mem_erase_iff.mp listed
  obtain ⟨-, nodes, -⟩ := rooted.removeTree_links member
  exact nodes low (rooted.apart_of_mem before member different below)
    (rooted.ne_root_of_below before below)

theorem removeTree (rooted : sheet.Rooted) {node : Handle} (member : node ∈ sheet.listed) :
    ({ sheet with
      forest := sheet.forest.removeTree node
      listed := sheet.listed.erase node } : Sheet).Rooted ∧
      (sheet.forest.removeTree node).table = sheet.table := by
  obtain ⟨root, nodes, parents, table⟩ := rooted.removeTree_links member
  refine ⟨?_, table⟩
  refine (rooted.of_same (rooted.linked.removeTree node) root (rooted.nodup_listed.erase node)
    List.erase_subset (fun other listed parent above => ?_) fun other listed low below => ?_).1
  · have ⟨different, before⟩ := rooted.nodup_listed.mem_erase_iff.mp listed
    rw [parents other (rooted.apart_of_mem before member different .refl)] at above
    exact rooted.outermost_listed other before parent above
  · exact rooted.node?_removeTree member listed below

theorem exprs_removeTree (rooted : sheet.Rooted) {node : Handle} (member : node ∈ sheet.listed) :
    ({ sheet with
      forest := sheet.forest.removeTree node
      listed := sheet.listed.erase node } : Sheet).exprs =
      (sheet.listed.erase node).filterMap fun other => (sheet.forest.tree other).expr? := by
  apply List.filterMap_congr
  intro other listed
  apply congrArg Tree.expr?
  exact rooted.linked.tree_congr fun low => rooted.node?_removeTree member listed

/-- After it has been rebuilt, the root holds the listed trees in their order. -/
theorem refreshRoot_links (rooted : sheet.Rooted) :
    sheet.refreshRoot.forest.Linked ∧
    (∀ other, sheet.refreshRoot.forest.node? other =
      if other = sheet.root then some (.group sheet.listed) else sheet.forest.node? other) ∧
    (∀ node ∈ sheet.listed, sheet.refreshRoot.forest.parent? node = some sheet.root) ∧
    sheet.refreshRoot.table = sheet.table := by
  obtain ⟨members, group⟩ := rooted.root
  obtain ⟨nodes, parents, table⟩ := rooted.linked.detachMembers_of_group group
  have group' := (nodes sheet.root).trans (if_pos rfl)
  have live : ∀ node ∈ sheet.listed, ∃ content,
      (sheet.forest.detachMembers sheet.root).node? node = some content ∧
        content.isGroup = false := by
    intro node member
    rw [nodes, if_neg (rooted.ne_root_of_mem member)]
    exact rooted.live_of_mem member
  have alone : ∀ node ∈ sheet.listed,
      (sheet.forest.detachMembers sheet.root).parent? node = none := by
    intro node member
    rw [parents]
    split
    next => rfl
    next outside =>
      cases above : sheet.forest.parent? node with
      | none => rfl
      | some parent =>
          rw [rooted.outermost_listed node member parent above] at above
          exact absurd above outside
  -- Once the members are let go, every listed tree is without a parent and adopted as it is.
  obtain ⟨nodes', parents', table'⟩ := Forest.adoptAll_of_root group' rooted.nodup_listed
    (fun node member => (live node member).imp fun _ found => found.1) alone
    fun member => rooted.ne_root_of_mem member rfl
  refine ⟨(rooted.linked.detachMembers sheet.root).adoptAll ⟨_, group'⟩ live, fun other => ?_,
    fun node member => (parents' node).trans (if_pos member), table'.trans table⟩
  refine (nodes' other).trans ?_
  rw [nodes]
  split <;> rfl

theorem refreshRoot_eq_ok (rooted : sheet.Rooted) :
    ((sheet.forest.groupClear sheet.root).bind fun cleared =>
      sheet.listed.foldlM (fun forest node => forest.groupPush sheet.root node) cleared) =
        .ok sheet.refreshRoot.forest := by
  obtain ⟨members, group⟩ := rooted.root
  obtain ⟨nodes, -⟩ := rooted.linked.detachMembers_of_group group
  have cleared : sheet.forest.groupClear sheet.root =
      .ok (sheet.forest.detachMembers sheet.root) :=
    bind_eq_ok_iff.mpr ⟨_, Forest.members_eq_ok_iff.mpr group, rfl⟩
  rw [cleared]
  apply (rooted.linked.detachMembers sheet.root).groupPushAll_eq_ok
  · exact ⟨[], (nodes sheet.root).trans (if_pos rfl)⟩
  · intro node member
    rw [nodes, if_neg (rooted.ne_root_of_mem member)]
    exact rooted.live_of_mem member

theorem tree_refreshRoot (rooted : sheet.Rooted) {node : Handle}
    (member : node ∈ sheet.listed) :
    sheet.refreshRoot.forest.tree node = sheet.forest.tree node := by
  obtain ⟨-, nodes, -⟩ := rooted.refreshRoot_links
  apply rooted.linked.tree_congr
  intro low below
  rw [nodes, if_neg (rooted.ne_root_of_below member below)]

theorem refreshRoot (rooted : sheet.Rooted) :
    sheet.refreshRoot.Rooted ∧ sheet.refreshRoot.exprs = sheet.exprs ∧
      sheet.refreshRoot.table = sheet.table := by
  obtain ⟨linked, nodes, parents, table⟩ := rooted.refreshRoot_links
  obtain ⟨rooted', exprs⟩ := rooted.of_same linked ⟨_, (nodes sheet.root).trans (if_pos rfl)⟩
    rooted.nodup_listed (List.Subset.refl _)
    (fun node member parent above => by
      rw [parents node member] at above
      exact (Option.some.inj above).symm)
    fun node member low below => by
      rw [nodes, if_neg (rooted.ne_root_of_below member below)]
  refine ⟨?_, exprs, table⟩
  exact ⟨rooted'.linked, rooted'.root, rooted'.nodup_listed, rooted'.outermost_listed,
    rooted'.expr?_listed⟩

end Rooted

end Sheet

end Worksheet
