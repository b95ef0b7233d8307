import Worksheet.Proofs.Forest.Census
import Worksheet.Proofs.Forest.Parts
import Worksheet.Proofs.Sheet.Operation

/-!
# The structure of a sheet

Every node of a sheet is its root or part of a listed tree, and between operations the root
holds the listed trees in their order.  Neither a failing operation nor whatever happens to
the variables in the meantime can change that.
-/

namespace Worksheet

namespace Forest

variable {forest forest' : Forest}

theorem Below.congr {low high : Handle} (below : forest.Below low high)
    (same : ∀ node, forest.Below node high → forest'.node? node = forest.node? node) :
    forest'.Below low high := by
  induction below using Relation.ReflTransGen.head_induction_on with
  | refl => exact .refl
  | @head low next up rest inductionHypothesis =>
      obtain ⟨content, located, member⟩ := up
      exact .head ⟨content, (same next rest).trans located, member⟩ inductionHypothesis

end Forest

namespace Sheet

variable {before sheet : Sheet} {exchanging due : Bool}

/-- Every node is the root or in a listed tree. -/
def Covered (sheet : Sheet) : Prop :=
  ∀ node, sheet.forest.isLive node = true →
    node = sheet.root ∨ ∃ top ∈ sheet.listed, sheet.forest.Below node top

/-- The root holds the listed trees, in the order of the list. -/
def Mirrored (sheet : Sheet) : Prop :=
  sheet.forest.node? sheet.root = some (.group sheet.listed)

/-! ### Every node is accounted for -/

theorem Covered.of_same (covered : sheet.Covered) {forest : Forest}
    (same : sheet.forest.Same forest) : ({ sheet with forest } : Sheet).Covered := by
  intro node live
  refine (covered node (same.isLive_iff.mp live)).imp_right ?_
  rintro ⟨top, member, below⟩
  exact ⟨top, member, below.mono fun node content located => (same.extends node content located).1⟩

theorem Covered.append (covered : sheet.Covered) {expr : Expr} {node : Handle} {forest : Forest}
    (grafts : sheet.forest.Grafts expr (.ok node, forest)) :
    ({ sheet with forest, listed := sheet.listed ++ [node] } : Sheet).Covered := by
  cases grafts with
  | made grafted known =>
    intro other live
    rcases known other live with old | below
    · refine (covered other old).imp_right ?_
      rintro ⟨top, member, below⟩
      exact ⟨top, List.mem_append_left _ member,
        below.mono fun node content located => (grafted.kept node content located).1⟩
    · exact .inr ⟨node, List.mem_append_right _ List.mem_cons_self, below⟩

theorem Rooted.covered_erase (rooted : sheet.Rooted) (covered : sheet.Covered) {node : Handle}
    (member : node ∈ sheet.listed) :
    ({ sheet with
      forest := sheet.forest.removeTree node
      listed := sheet.listed.erase node } : Sheet).Covered := by
  intro other live
  have apart : ¬sheet.forest.Below other node := by
    intro below
    obtain ⟨content, located⟩ := Forest.isLive_iff.mp live
    cases (rooted.linked.node?_removeTree_of_below below).symm.trans located
  obtain ⟨-, nodes, -⟩ := rooted.removeTree_links member
  by_cases root : other = sheet.root
  · exact .inl root
  · have before : sheet.forest.isLive other = true := by
      rw [Forest.isLive_iff, nodes other apart root] at live
      exact Forest.isLive_iff.mpr live
    obtain ⟨top, listed, below⟩ := (covered other before).resolve_left root
    have stays : top ∈ sheet.listed.erase node := by
      apply rooted.nodup_listed.mem_erase_iff.mpr ⟨_, listed⟩
      rintro rfl
      exact apart below
    exact .inr ⟨top, stays, below.congr fun low => rooted.node?_removeTree member stays⟩

theorem Covered.of_mem_iff (covered : sheet.Covered) {listed : List Handle}
    (same : ∀ node, node ∈ sheet.listed → node ∈ listed) :
    ({ sheet with listed } : Sheet).Covered := by
  intro node live
  refine (covered node live).imp_right ?_
  rintro ⟨top, member, below⟩
  exact ⟨top, same top member, below⟩

theorem Rooted.covered_exchange (rooted : sheet.Rooted) (covered : sheet.Covered) {expr : Expr}
    (readable : expr.Readable sheet.kind) {node replacement : Handle} {forest : Forest}
    (done : sheet.forest.graft expr = (.ok replacement, forest)) (member : node ∈ sheet.listed) :
    ({ sheet with
      forest := forest.removeTree node
      listed := sheet.listed.replace node replacement } : Sheet).Covered := by
  have grafts := rooted.linked.grafts expr
  rw [done] at grafts
  obtain ⟨grown, -⟩ := rooted.grafted readable grafts.grafted
  have erased := grown.covered_erase (covered.append grafts) (List.mem_append_left _ member)
  rw [List.erase_append_left _ member] at erased
  have order := (perm_replace member).trans (List.perm_append_singleton replacement _).symm
  exact erased.of_mem_iff fun node => order.mem_iff.mpr

theorem Rooted.covered_refreshRoot (rooted : sheet.Rooted) (covered : sheet.Covered) :
    sheet.refreshRoot.Covered := by
  obtain ⟨-, nodes, -⟩ := rooted.refreshRoot_links
  intro node live
  by_cases root : node = sheet.root
  · exact .inl root
  · rw [Forest.isLive_iff, nodes, if_neg root] at live
    obtain ⟨top, member, below⟩ :=
      (covered node (Forest.isLive_iff.mpr live)).resolve_left root
    refine .inr ⟨top, member, below.congr fun low below => ?_⟩
    rw [nodes, if_neg (rooted.ne_root_of_below member below)]

theorem covered_of_group {forest : Forest} (linked : forest.Linked)
    (dead : ∀ node, forest.node? node = none) (sheet : Sheet) :
    ({ sheet with
      forest := forest.addEmptyGroup.2
      root := forest.addEmptyGroup.1
      listed := [] } : Sheet).Covered := by
  intro node live
  obtain ⟨content, located⟩ := Forest.isLive_iff.mp live
  change (forest.allocate (.group [])).2.node? node = some content at located
  rw [Forest.node?_allocate linked.formed, dead] at located
  split at located
  next same => exact .inl same
  next => cases located

theorem mirrored_of_group {forest : Forest} (linked : forest.Linked) (sheet : Sheet) :
    ({ sheet with
      forest := forest.addEmptyGroup.2
      root := forest.addEmptyGroup.1
      listed := [] } : Sheet).Mirrored :=
  Forest.node?_allocate_self linked.formed (.group [])

theorem Rooted.linked_clear (rooted : sheet.Rooted) :
    ({ sheet.forest.clear with table := .empty } : Forest).Linked ∧
      ∀ node, ({ sheet.forest.clear with table := .empty } : Forest).node? node = none :=
  ⟨rooted.linked.clear.withTable .empty,
    fun node => congrArg (Option.map Cell.node) (Pool.get?_clear sheet.forest.cells node)⟩

/-- Edits leave no node behind. -/
theorem Edits.covered (edits : before.Edits exchanging due sheet) (rooted : before.Rooted)
    (covered : before.Covered) : sheet.Covered := by
  induction edits with
  | none => exact covered
  | declare _ named inductionHypothesis => exact inductionHypothesis
  | prune _ inductionHypothesis => exact inductionHypothesis
  | @refuse _ middle expr _ _ edits _ done inductionHypothesis =>
      have grafts := (edits.leads rooted).rooted.linked.grafts expr
      rw [done] at grafts
      cases grafts with
      | refused linked same => exact inductionHypothesis.of_same same
  | @skip _ middle expr node forest edits _ done _ inductionHypothesis =>
      have linked := (edits.leads rooted).rooted.linked
      have grafts := linked.grafts expr
      rw [done] at grafts
      apply inductionHypothesis.of_same
      exact grafts.same_removeTree linked grafts.grafted.linked fun _ => ⟨rfl, rfl⟩
  | @append _ middle expr _ _ edits _ done _ inductionHypothesis =>
      have grafts := (edits.leads rooted).rooted.linked.grafts expr
      rw [done] at grafts
      exact inductionHypothesis.append grafts
  | erase edits member inductionHypothesis =>
      exact (edits.leads rooted).rooted.covered_erase inductionHypothesis member
  | exchange edits _ member readable done inductionHypothesis =>
      exact (edits.leads rooted).rooted.covered_exchange inductionHypothesis readable done member
  | refreshRoot edits inductionHypothesis =>
      exact (edits.leads rooted).rooted.covered_refreshRoot inductionHypothesis
  | @clear _ _ middle edits kind _ =>
      obtain ⟨linked, dead⟩ := (edits.leads rooted).rooted.linked_clear
      exact covered_of_group linked dead { middle with dialect := { middle.dialect with kind } }
  | annotate _ filters file version inductionHypothesis => exact inductionHypothesis

/-- The root holds the listed trees again after edits that have changed the list. -/
theorem Edits.mirrored (edits : before.Edits exchanging due sheet) (rooted : before.Rooted)
    (mirrored : before.Mirrored) (current : due = false) : sheet.Mirrored := by
  induction edits with
  | none => exact mirrored
  | declare _ named inductionHypothesis => exact inductionHypothesis current
  | prune _ inductionHypothesis => exact inductionHypothesis current
  | @refuse _ middle expr _ _ edits _ done inductionHypothesis =>
      have grafts := (edits.leads rooted).rooted.linked.grafts expr
      rw [done] at grafts
      cases grafts with
      | refused linked same => exact (same middle.root).1.trans (inductionHypothesis current)
  | @skip _ middle expr node forest edits _ done _ inductionHypothesis =>
      have linked := (edits.leads rooted).rooted.linked
      have grafts := linked.grafts expr
      rw [done] at grafts
      have same := grafts.same_removeTree linked grafts.grafted.linked fun _ => ⟨rfl, rfl⟩
      exact (same middle.root).1.trans (inductionHypothesis current)
  | append | erase | exchange => cases current
  | @refreshRoot _ _ middle edits _ =>
      obtain ⟨-, nodes, -⟩ := (edits.leads rooted).rooted.refreshRoot_links
      exact (nodes middle.root).trans (if_pos rfl)
  | @clear _ _ middle edits kind _ =>
      exact mirrored_of_group (edits.leads rooted).rooted.linked_clear.1
        { middle with dialect := { middle.dialect with kind } }
  | annotate _ filters file version inductionHypothesis => exact inductionHypothesis current

/-! ### Runs -/

/-- What can be done to a sheet: its own operations, looking for values, and calls that
go to the variables directly. -/
inductive Action where
  | own (operation : Operation)
  | value (node : Handle)
  | tryValue (node : Handle)
  | table (call : Variables.Call)

def act (sheet : Sheet) : Action → Sheet
  | .own operation => sheet.perform operation
  | .value node => { sheet with forest := (sheet.forest.value node).2 }
  | .tryValue node => { sheet with forest := (sheet.forest.tryValue node).2 }
  | .table call =>
      match call.perform sheet.table with
      | .error _ => sheet
      | .ok table => sheet.withTable table

def acts (sheet : Sheet) (actions : List Action) : Sheet :=
  actions.foldl act sheet

/-- The sheet can come about by actions. -/
def Attainable (sheet : Sheet) : Prop :=
  ∃ dialect actions, (new dialect).acts actions = sheet

/-- What holds of a sheet between actions. -/
structure Intact (sheet : Sheet) : Prop where
  rooted : sheet.Rooted
  covered : sheet.Covered
  mirrored : sheet.Mirrored

theorem intact_new (dialect : Dialect) : (new dialect).Intact :=
  ⟨(holds_new dialect).rooted,
    covered_of_group (Forest.linked_empty .empty) (fun _ => rfl) (new dialect),
    mirrored_of_group (Forest.linked_empty .empty) (new dialect)⟩

theorem Intact.withTable (intact : sheet.Intact) (table : Variables) :
    (sheet.withTable table).Intact :=
  ⟨(intact.rooted.withTable table).1, intact.covered, intact.mirrored⟩

theorem Intact.edits (intact : before.Intact) (edits : before.Edits exchanging false sheet) :
    sheet.Intact :=
  ⟨(edits.leads intact.rooted).rooted, edits.covered intact.rooted intact.covered,
    edits.mirrored intact.rooted intact.mirrored rfl⟩

/-- One action leaves a sheet intact, also if it fails. -/
theorem Intact.act (intact : sheet.Intact) (action : Action) : (sheet.act action).Intact := by
  cases action with
  | own operation => exact intact.edits (sheet.edits_perform operation)
  | value node =>
      obtain ⟨value, table, valued⟩ := sheet.forest.value_eq node
      rw [Sheet.act, valued]
      exact intact.withTable table
  | tryValue node =>
      obtain ⟨value, table, valued⟩ := sheet.forest.tryValue_eq node
      rw [Sheet.act, valued]
      exact intact.withTable table
  | table call =>
      rw [Sheet.act]
      split
      next => exact intact
      next table _ => exact intact.withTable table

theorem Intact.acts (intact : sheet.Intact) (actions : List Action) :
    (sheet.acts actions).Intact := by
  induction actions generalizing sheet with
  | nil => exact intact
  | cons action rest inductionHypothesis => exact inductionHypothesis (intact.act action)

theorem Attainable.intact (attainable : sheet.Attainable) : sheet.Intact := by
  obtain ⟨dialect, actions, rfl⟩ := attainable
  exact (intact_new dialect).acts actions

/-! ### What is in an intact sheet -/

theorem Intact.parent?_of_mem (intact : sheet.Intact) {node : Handle}
    (member : node ∈ sheet.listed) : sheet.forest.parent? node = some sheet.root :=
  intact.rooted.linked.parent?_of_child node sheet.root ⟨_, intact.mirrored, member⟩

theorem Intact.below_root (intact : sheet.Intact) {node : Handle}
    (live : sheet.forest.isLive node = true) : sheet.forest.Below node sheet.root := by
  rcases intact.covered node live with rfl | ⟨top, member, below⟩
  · exact .refl
  · exact below.tail ⟨_, intact.mirrored, member⟩

/-- A node that is not the root is in one listed tree alone. -/
theorem Intact.existsUnique_top (intact : sheet.Intact) {node : Handle}
    (live : sheet.forest.isLive node = true) (different : node ≠ sheet.root) :
    ∃! top, top ∈ sheet.listed ∧ sheet.forest.Below node top := by
  obtain ⟨top, member, below⟩ := (intact.covered node live).resolve_left different
  refine ⟨top, ⟨member, below⟩, ?_⟩
  rintro other ⟨member', below'⟩
  by_contra apart
  exact intact.rooted.apart_of_mem member' member apart below' below

/-- Whatever has been done to a sheet and to its variables, refused or not: its root is a group of
its own that holds the listed trees in their order, every other node is in just one of them, and
they are whole expressions of the sheet's kind. -/
theorem Attainable.structured (attainable : sheet.Attainable) :
    sheet.forest.node? sheet.root = some (.group sheet.listed) ∧
    sheet.forest.parent? sheet.root = none ∧ sheet.listed.Nodup ∧
    (∀ node ∈ sheet.listed,
      sheet.forest.isLive node = true ∧ sheet.forest.parent? node = some sheet.root) ∧
    (∀ node, sheet.forest.isLive node = true → node ≠ sheet.root →
      ∃! top, top ∈ sheet.listed ∧ sheet.forest.Below node top) ∧
    sheet.forest.size =
      1 + (sheet.listed.map fun top => (sheet.forest.sweep top).length).sum ∧
    (∀ top ∈ sheet.listed, ∀ node, sheet.forest.Below node top →
      (∀ operator left right, sheet.forest.node? node = some (.binary operator left right) →
        left.isSome = true ∧ right.isSome = true ∧
        (operator = .assign → node = top ∧ ∃ target name, left = some target ∧
          sheet.forest.node? target = some (.variable name))) ∧
      (∀ value, sheet.forest.node? node = some (.constant value) →
        value.kind = sheet.kind ∧ value.isFinite = true) ∧
      ∀ members, sheet.forest.node? node ≠ some (.group members)) ∧
    ((sheet.forest.groupClear sheet.root).bind fun cleared =>
      sheet.listed.foldlM (fun forest node => forest.groupPush sheet.root node) cleared) =
        .ok sheet.refreshRoot.forest := by
  have intact := attainable.intact
  have linked := intact.rooted.linked
  refine ⟨intact.mirrored, linked.group_parent? _ _ intact.mirrored, intact.rooted.nodup_listed,
    ?_, fun node => intact.existsUnique_top, ?_, ?_, intact.rooted.refreshRoot_eq_ok⟩
  · intro node member
    have above := intact.parent?_of_mem member
    exact ⟨Forest.isLive_iff.mpr (Forest.node?_of_parent? above), above⟩
  · exact linked.size_eq_of_group intact.mirrored fun node => intact.below_root
  · intro top member node below
    obtain ⟨expr, found, readable⟩ := intact.rooted.expr?_listed top member
    obtain ⟨part, here, fewer⟩ := linked.expr?_of_below found below
    refine ⟨fun operator left right located => ?_, fun value located => ?_,
      fun members located => ?_⟩
    · obtain ⟨low, high, -, -, rfl, rfl, -⟩ := linked.operands_of_expr? located here
      refine ⟨rfl, rfl, ?_⟩
      rintro rfl
      obtain ⟨name, target⟩ := linked.assignment_target node low _ located
      exact ⟨linked.eq_of_assignment_below found located below, low, name, rfl, target⟩
    · rw [linked.tree_eq, located] at here
      cases here
      have listed : value ∈ expr.constants := fewer List.mem_cons_self
      exact ⟨readable.kind_constants value listed, readable.isFinite_constants value listed⟩
    · rw [linked.tree_eq, located] at here
      cases here

/-- After a text has failed in its middle, a variable has been set behind the back of the
sheet, a division by it has been refused, and an expression has been replaced. -/
theorem Attainable.structured_after_failures :
    let sheet := (new .standard).acts
      [.own (.enter (some "a + b; c = 2; )")), .table (.assign "a" (some (.int 0))),
        .own (.enter (some "d = 1 / a")), .own (.replace ⟨3, 0⟩ (some "b; a"))]
    sheet.Attainable ∧ sheet.listed = [⟨8, 1⟩, ⟨6, 0⟩, ⟨1, 1⟩] ∧
      sheet.forest.node? sheet.root = some (.group sheet.listed) ∧ sheet.forest.size = 6 := by
  intro sheet
  have attainable : sheet.Attainable := ⟨_, _, rfl⟩
  refine ⟨attainable, ?_, (Attainable.structured attainable).1, ?_⟩
  · unfold sheet
    cbv
  · unfold sheet
    cbv

end Sheet

end Worksheet
