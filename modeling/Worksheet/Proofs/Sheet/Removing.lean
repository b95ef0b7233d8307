import Worksheet.Proofs.Forest.Moving
import Worksheet.Proofs.Forest.Unrooting
import Worksheet.Proofs.Sheet.KindSafety

/-!
# Removing an expression

A listed expression goes with its nodes and with the variables that no other expression
mentions.  The other expressions keep their nodes and their order, and the variables that they
mention keep their values, also if it was the expression that goes that has set them.
-/

namespace Worksheet

namespace Forest

variable {forest middle after : Forest} {node : Handle}

theorem Removes.of_same (removes : forest.Removes node middle) (same : middle.Same after)
    (size : after.size = middle.size) : forest.Removes node after where
  live_of_below := removes.live_of_below
  live_iff other := same.isLive_iff.trans (removes.live_iff other)
  size := by
    rw [size]
    exact removes.size
  forsaken former up := by
    rw [(same former).1]
    exact removes.forsaken former up
  contents other apart elsewhere := (same other).1.trans (removes.contents other apart elsewhere)
  parents other apart := (same other).2.trans (removes.parents other apart)

end Forest

namespace Sheet

variable {sheet after : Sheet} {node : Handle}

/-! ### Rebuilding the root -/

theorem Rooted.same_refreshRoot (rooted : sheet.Rooted) (mirrored : sheet.Mirrored) :
    sheet.forest.Same sheet.refreshRoot.forest := by
  obtain ⟨linked, nodes, -⟩ := rooted.refreshRoot_links
  have same : sheet.refreshRoot.forest.node? = sheet.forest.node? := by
    funext other
    rw [nodes]
    split
    next here => rw [here, mirrored]
    next => rfl
  have above := rooted.linked.parent?_congr linked same
  exact fun other => ⟨congrFun same other, congrFun above other⟩

/-- What pruning a sheet and rebuilding its root leave of it. -/
theorem Rooted.refreshRoot_prune (rooted : sheet.Rooted) :
    sheet.prune.refreshRoot.Rooted ∧ sheet.prune.refreshRoot.exprs = sheet.exprs ∧
    (∀ node ∈ sheet.listed,
      sheet.prune.refreshRoot.forest.tree node = sheet.forest.tree node) ∧
    ∀ name, sheet.prune.refreshRoot.table.find? name =
      if sheet.prune.refreshRoot.Mentions name then sheet.table.find? name else none := by
  obtain ⟨pruned, samePruned⟩ : sheet.prune.Rooted ∧ sheet.prune.exprs = sheet.exprs :=
    rooted.withTable _
  obtain ⟨rebuilt, same, table⟩ := pruned.refreshRoot
  refine ⟨rebuilt, same.trans samePruned, fun node listed => ?_, fun name => ?_⟩
  · exact pruned.tree_refreshRoot listed
  · rw [table, rooted.find?_prune]
    exact if_congr (by simp only [Mentions, same, samePruned]) rfl rfl

theorem Intact.mirrored_erase (intact : sheet.Intact) (member : node ∈ sheet.listed) :
    ({ sheet with
      forest := sheet.forest.removeTree node
      listed := sheet.listed.erase node } : Sheet).Mirrored := by
  have rooted := intact.rooted
  obtain ⟨nodes, -⟩ := rooted.linked.removeTree_of_outermost intact.mirrored
    (rooted.outermost_listed node member) (rooted.ne_root_of_mem member)
  have root : ¬sheet.forest.Below sheet.root node :=
    fun below => rooted.ne_root_of_below member below rfl
  rw [Mirrored, nodes sheet.root root, if_pos rfl, rooted.nodup_listed.erase_eq_filter]
  simp [bne, beq_eq_decide]

/-! ### Dropping an expression -/

/-- What remains when a listed expression goes. -/
structure Drops (sheet : Sheet) (node : Handle) (after : Sheet) : Prop where
  listed : ∃ earlier later, sheet.listed = earlier ++ node :: later ∧
    after.listed = earlier ++ later
  unlisted : node ∉ after.listed
  /-- The nodes of the expression go, and no others do. -/
  removes : sheet.forest.Removes node after.forest
  trees : ∀ other ∈ after.listed, after.forest.tree other = sheet.forest.tree other
  known : ∀ name, after.table.find? name =
    if after.Mentions name then sheet.table.find? name else none
  rest : after = { sheet with
    forest := after.forest, listed := after.listed, version := sheet.version + 1 }
  /-- The tree may be removed, and the root may give up its members and take those that
  are listed. -/
  allowed : ∃ removed, sheet.forest.remove node = .ok removed ∧
    ((({ removed with table := after.table } : Forest).groupClear sheet.root).bind fun cleared =>
      after.listed.foldlM (fun forest other => forest.groupPush sheet.root other) cleared) =
        .ok after.forest

theorem Intact.drops_remove (intact : sheet.Intact) (member : node ∈ sheet.listed) :
    (sheet.remove node).1 = true ∧ sheet.Drops node (sheet.remove node).2 := by
  have rooted := intact.rooted
  obtain ⟨content, located, -⟩ := rooted.live_of_mem member
  let erased : Sheet :=
    { sheet with forest := sheet.forest.removeTree node, listed := sheet.listed.erase node }
  obtain ⟨kept, same⟩ : erased.Rooted ∧ erased.table = sheet.table := rooted.removeTree member
  have pruned : erased.prune.Intact :=
    ⟨(kept.withTable _).1, rooted.covered_erase intact.covered member,
      intact.mirrored_erase member⟩
  have unmoved := pruned.rooted.same_refreshRoot pruned.mirrored
  obtain ⟨rebuilt, -, trees, known⟩ := kept.refreshRoot_prune
  have removed : sheet.remove node = (true, erased.prune.refreshRoot) := by
    simp [remove, member, erased]
  rw [removed]
  refine ⟨rfl, ?listed, rooted.nodup_listed.not_mem_erase, ?removes, ?trees, ?known, rfl,
    ?allowed⟩
  case listed =>
    obtain ⟨earlier, later, split, outside⟩ := List.eq_append_cons_of_mem member
    refine ⟨earlier, later, split, ?_⟩
    change sheet.listed.erase node = earlier ++ later
    rw [split, List.erase_append_right _ outside, List.erase_cons_head]
  case removes =>
    have gone := rooted.linked.removes_removeTree located
    exact gone.of_same unmoved (pruned.rooted.linked.size_of_same rebuilt.linked unmoved)
  case trees =>
    intro other listed
    rw [trees other listed]
    exact rooted.linked.tree_congr fun low => rooted.node?_removeTree member listed
  case known => exact fun name => same ▸ known name
  case allowed =>
    obtain ⟨-, -, table⟩ := pruned.rooted.refreshRoot
    refine ⟨sheet.forest.removeTree node, Forest.remove_eq_ok located, ?_⟩
    rw [table]
    exact pruned.rooted.refreshRoot_eq_ok

/-- A removal does nothing if the expression is not listed.  Otherwise no step of it is refused,
and only the tree, its entry and the variables that no other expression mentions go. -/
theorem Attainable.remove_exact (attainable : sheet.Attainable) (node : Handle) :
    (node ∉ sheet.listed → sheet.remove node = (false, sheet)) ∧
    (node ∈ sheet.listed →
      (sheet.remove node).1 = true ∧ sheet.Drops node (sheet.remove node).2) :=
  ⟨fun unlisted => by simp [remove, unlisted], attainable.intact.drops_remove⟩

/-- An assignment goes, and with it the variable that no other expression mentions; the one
that it has set keeps its value.  An operand cannot be removed like that. -/
theorem Attainable.remove_exact_assignment :
    let sheet := (Sheet.new ⟨.int, ';'⟩).acts
      [.table (.assign "d" (some (.int 3))), .own (.enter "b + 1; a = d * 2; a - b")]
    let after := (sheet.remove ⟨8, 0⟩).2
    sheet.Attainable ∧ sheet.listed = [⟨3, 0⟩, ⟨8, 0⟩, ⟨11, 0⟩] ∧
      sheet.remove ⟨9, 0⟩ = (false, sheet) ∧ (sheet.remove ⟨8, 0⟩).1 = true ∧
      after.listed = [⟨3, 0⟩, ⟨11, 0⟩] ∧ after.forest.isLive ⟨7, 0⟩ = false ∧
      after.forest.isLive ⟨9, 0⟩ = true ∧ after.table.find? "a" = some (some (.int 6)) ∧
      after.table.find? "d" = none := by
  intro sheet after
  have attainable : sheet.Attainable := ⟨_, _, rfl⟩
  have listed : sheet.listed = [⟨3, 0⟩, ⟨8, 0⟩, ⟨11, 0⟩] := by decide +kernel
  have member : (⟨8, 0⟩ : Handle) ∈ sheet.listed := by simp [listed]
  obtain ⟨done, drops⟩ := (Attainable.remove_exact attainable ⟨8, 0⟩).2 member
  have unlisted := (Attainable.remove_exact attainable ⟨9, 0⟩).1 (by simp [listed])
  have kept : after.Mentions "a" ∧ ¬after.Mentions "d" := by decide +kernel
  have stored : sheet.table.find? "a" = some (some (.int 6)) := by decide +kernel
  refine ⟨attainable, listed, unlisted, done, by decide +kernel, by decide +kernel,
    by decide +kernel, ?_, ?_⟩
  · exact (drops.known "a").trans ((if_pos kept.1).trans stored)
  · exact (drops.known "d").trans (if_neg kept.2)

end Sheet

end Worksheet
