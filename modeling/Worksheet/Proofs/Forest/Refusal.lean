import Worksheet.Proofs.Forest.Gathering
import Worksheet.Proofs.Forest.Outcome
import Worksheet.Proofs.Forest.Stepwise

/-!
# Refused mutations

The questions of a mutation come before all that it writes, and none of its later steps
fails.  So a mutation that is refused leaves a forest as it was, but for one vacant slot
where a group was to be made.
-/

namespace Worksheet

namespace Pool

universe u

variable {α : Type u} {pool : Pool α}

/-- One vacant slot has moved on by a generation, or one vacant slot more has been made. -/
def Worn (pool after : Pool α) : Prop :=
  (∃ index generation, index ∈ pool.free ∧ pool.slots[index]? = some ⟨generation, none⟩ ∧
    after = { pool with slots := pool.slots.modify index fun _ => ⟨generation + 1, none⟩ }) ∨
  pool.free = [] ∧ after = ⟨pool.slots.push ⟨1, none⟩, [pool.slots.size]⟩

theorem worn_insert (formed : pool.WellFormed) (value : α) :
    pool.Worn ((pool.insert value).2.erase (pool.insert value).1) := by
  have live : (pool.insert value).2.contains (pool.insert value).1 = true := by
    rw [contains, get?_insert formed, if_pos rfl]
    rfl
  rw [erase, if_pos live]
  cases free : pool.free with
  | nil =>
      refine .inr ⟨free, ?_⟩
      rw [insert_of_full free, free]
      congr 1
      apply Array.ext_getElem?
      intro index
      rw [Array.getElem?_modify, Array.getElem?_push, Array.getElem?_push]
      by_cases last : index = pool.slots.size
      · simp [last]
      · simp [last, Ne.symm last]
  | cons index rest =>
      obtain ⟨generation, located, made⟩ := insert_of_free formed free value
      refine .inl ⟨index, generation, free ▸ List.mem_cons_self, located, ?_⟩
      rw [made, free]
      congr 1
      apply Array.ext_getElem?
      intro other
      rw [Array.getElem?_modify, Array.getElem?_modify, Array.getElem?_modify]
      by_cases here : index = other
      · subst here
        simp [located]
      · simp [here]

theorem Worn.handles {after : Pool α} (worn : pool.Worn after) : after.handles = pool.handles := by
  rcases worn with ⟨index, generation, -, located, rfl⟩ | ⟨-, rfl⟩
  · rw [Pool.handles, Pool.handles, Array.size_modify]
    apply List.filterMap_congr
    intro other _
    rw [Array.getElem?_modify]
    split
    next here =>
      subst here
      rw [located]
      rfl
    next => rfl
  · rw [Pool.handles, Pool.handles, Array.size_push, List.range_succ, List.filterMap_append]
    have old : ∀ index ∈ List.range pool.slots.size,
        (pool.slots.push ⟨1, none⟩)[index]? = pool.slots[index]? := by
      intro index inside
      rw [Array.getElem?_push, if_neg (Nat.ne_of_lt (List.mem_range.mp inside))]
    have new : [pool.slots.size].filterMap (fun index =>
        (pool.slots.push (⟨1, none⟩ : Slot α))[index]?.bind fun slot =>
          slot.content.map fun _ => (⟨index, slot.generation⟩ : Handle)) = [] := by
      simp
    rw [new, List.append_nil]
    apply List.filterMap_congr
    intro index inside
    rw [old index inside]

end Pool

namespace Forest

open Steps

variable {forest : Forest} {child binary group : Handle}

/-! ### Changing operands -/

theorem live_of_checkOperand (linked : forest.Linked) {child : Option Handle}
    (checked : forest.checkOperand binary child = .ok ()) :
    ∀ node, child = some node → ∃ content, forest.node? node = some content := by
  intro node same
  obtain ⟨upper, lower, -, found, -⟩ :=
    linked.checkChild_eq_ok_iff.mp (checkOperand_eq_ok_iff.mp checked node same)
  exact ⟨lower, found⟩

theorem Linked.on_link_of_checked (linked : forest.Linked) {operator : Operator}
    (found : forest.operator binary = .ok operator) (side : Side) {child : Option Handle}
    (checked : forest.checkOperand binary child = .ok ()) :
    (Steps.link binary side child).on forest = (.ok (), forest.link binary side child) := by
  obtain ⟨content, located, isBinary⟩ := operator_eq_ok_iff.mp found
  exact linked.on_link located isBinary side (live_of_checkOperand linked checked)

theorem Linked.on_setLeft (linked : forest.Linked) (binary : Handle) (child : Option Handle) :
    (Steps.setLeft binary child).on forest = forest.outcome (forest.setLeft binary child) := by
  rw [Steps.setLeft, Forest.setLeft]
  refine on_ask_bind fun operator found => ?_
  by_cases assign : operator = .assign
  · rw [if_pos assign, if_pos assign]
    refine on_ask_bind fun _ target => on_ask_bind fun _ checked => on_ask_bind fun right held => ?_
    have moved := linked.on_link_of_checked found .left checked
    obtain ⟨value, valued⟩ := linked.assignedValue_of_plain fun node same =>
      linked.plain_of_right (held.trans (congrArg _ same))
    have taken : (Steps.assignedValue right).on forest = (value, forest) := valued
    rw [valued]
    cases value with
    | error fault => exact on_bind_of_error taken _
    | ok value =>
        rw [on_bind_of_ok taken, on_bind_of_ok moved]
        cases value with
        | none => rfl
        | some value => exact on_push binary (some value)
  · rw [if_neg assign, if_neg assign]
    exact on_ask_bind fun _ checked => linked.on_link_of_checked found .left checked

theorem Linked.on_setRight (linked : forest.Linked) (binary : Handle) (child : Option Handle) :
    (Steps.setRight binary child).on forest = forest.outcome (forest.setRight binary child) := by
  rw [Steps.setRight, Forest.setRight]
  refine on_ask_bind fun operator found => ?_
  by_cases assign : operator = .assign
  · rw [if_pos assign, if_pos assign]
    refine on_ask_bind fun _ checked => ?_
    have moved := linked.on_link_of_checked found .right checked
    obtain ⟨value, valued⟩ := linked.assignedValue_of_plain fun node same =>
      linked.plain_of_checkChild found (checkOperand_eq_ok_iff.mp checked node same)
    have taken : (Steps.assignedValue child).on forest = (value, forest) := valued
    rw [valued]
    cases value with
    | error fault => exact on_bind_of_error taken _
    | ok value =>
        rw [on_bind_of_ok taken, on_bind_of_ok moved]
        exact on_push binary value
  · rw [if_neg assign, if_neg assign]
    exact on_ask_bind fun _ checked => linked.on_link_of_checked found .right checked

/-! ### Changing groups -/

theorem Linked.on_groupPush (linked : forest.Linked) (group child : Handle) :
    (Steps.groupPush group child).on forest = forest.outcome (forest.groupPush group child) := by
  rw [Steps.groupPush, Forest.groupPush]
  refine on_ask_bind fun members found => on_ask_bind fun _ checked => ?_
  have located := members_eq_ok_iff.mp found
  obtain ⟨upper, lower, -, live, -⟩ := linked.checkChild_eq_ok_iff.mp checked
  have located' : (forest.detach child).node? group =
      some (.group (members.filter (· ≠ child))) := by
    rw [linked.node?_detach, located]
    rfl
  have live' : ∃ content,
      ((forest.detach child).changeNode group (·.withMember child)).node? child =
        some content := by
    rw [node?_changeNode, located', linked.node?_detach, live]
    split <;> exact ⟨_, rfl⟩
  obtain ⟨content, live'⟩ := live'
  rw [on_bind_of_ok (linked.on_detach live), on_bind_of_ok (on_changeNode located' _)]
  exact on_setParentLink live' (some group)

theorem Linked.on_groupPushAll (linked : forest.Linked) {nodes : List Handle}
    (located : ∃ members, forest.node? group = some (.group members))
    (found : ∀ node ∈ nodes, ∃ content,
      forest.node? node = some content ∧ content.isGroup = false) :
    (nodes.forM (Steps.groupPush group)).on forest =
      (.ok (), nodes.foldl (fun forest node => forest.adopt group node) forest) := by
  induction nodes generalizing forest with
  | nil => rfl
  | cons node rest inductionHypothesis =>
      obtain ⟨content, here, single⟩ := found node List.mem_cons_self
      have pushed := linked.groupPush_eq_ok located here single
      have step := linked.on_groupPush group node
      rw [pushed] at step
      obtain ⟨members, located⟩ := located
      have located' :=
        exists_group_of_bare (linked.bare_node?_adopt group node group).symm located
      rw [List.forM, on_bind_of_ok step, List.foldl_cons]
      refine inductionHypothesis (linked.groupPush pushed) located' fun other later => ?_
      exact linked.single_adopt group node (found other (List.mem_cons_of_mem node later))

theorem Linked.on_groupClear (linked : forest.Linked) (group : Handle) :
    (Steps.groupClear group).on forest = forest.outcome (forest.groupClear group) := by
  rw [Steps.groupClear, Forest.groupClear]
  refine on_ask_bind fun members found => ?_
  have located := members_eq_ok_iff.mp found
  have emptied : forest.detachMembers group = members.foldl Forest.detach forest := by
    rw [Forest.detachMembers, located]
  rw [emptied]
  apply linked.on_detachAll
  intro node member
  exact node?_of_parent? (linked.parent?_of_child node group ⟨_, located, member⟩)

theorem Linked.on_addGroup (linked : forest.Linked) (members : List Handle) :
    (Steps.addGroup members).on forest = forest.addGroup members := by
  have made : (make (.group [])).on forest =
      (.ok (forest.allocate (.group [])).1, (forest.allocate (.group [])).2) := on_make rfl
  rw [Steps.addGroup, on_bind_of_ok made, on_look, Forest.addGroup, addEmptyGroup]
  have linked' : (forest.allocate (.group [])).2.Linked := linked.allocate rfl
  have located := node?_allocate_self linked.formed (.group [])
  dsimp only
  cases checked : members.forM
      ((forest.allocate (.group [])).2.checkChild (forest.allocate (.group [])).1) with
  | error fault => rfl
  | ok _ =>
      refine on_bind_of_ok (linked'.on_groupPushAll ⟨[], located⟩ fun member listed => ?_) _
      obtain ⟨upper, lower, -, found, allowed, -⟩ :=
        linked'.checkChild_eq_ok_iff.mp (forM_eq_ok_iff.mp checked member listed)
      exact ⟨lower, found, (Node.misplacement?_eq_none_iff.mp allowed).1⟩

/-! ### Moving and removing nodes -/

theorem Linked.on_setParent (linked : forest.Linked) (child : Handle) (parent : Option Handle) :
    (Steps.setParent child parent).on forest = forest.outcome (forest.setParent child parent) := by
  unfold Steps.setParent Forest.setParent
  refine on_ask_bind fun content found => ?_
  cases content.isGroup with
  | true => rfl
  | false =>
      cases parent with
      | none => exact linked.on_detach (node_eq_ok_iff.mp found)
      | some parent =>
          refine on_ask_bind fun _ checked => on_ask_bind fun upper located => ?_
          by_cases isGroup : upper.isGroup = true
          · rw [if_pos isGroup, if_pos isGroup]
            exact linked.on_groupPush parent child
          · rw [if_neg isGroup, if_neg isGroup]
            refine on_ask_bind fun operands held => ?_
            obtain ⟨left, right⟩ := operands
            cases left with
            | none => exact linked.on_setLeft parent (some child)
            | some first =>
                cases right with
                | none => exact linked.on_setRight parent (some child)
                | some second => rfl

theorem Linked.on_remove (linked : forest.Linked) (node : Handle) :
    (Steps.remove node).on forest = forest.outcome (forest.remove node) := by
  rw [Steps.remove, Forest.remove]
  cases located : forest.node? node with
  | none =>
      have missing : forest.node node = .error (.removed node) := by rw [Forest.node, located]
      rw [on_bind_of_error (on_detach_of_dead located), missing]
      rfl
  | some content =>
      rw [on_bind_of_ok (linked.on_detach located), node_of_located located]
      rfl

/-! ### Mutations with an answer -/

section Answers

variable {α : Type}

/-- Like `outcome`, for a mutation with an answer. -/
def answered (forest : Forest) : Except Fault (α × Forest) → Except Fault α × Forest
  | .error fault => (.error fault, forest)
  | .ok done => (.ok done.1, done.2)

theorem on_addVariable (forest : Forest) (name : String) (value : Option Number) :
    (Steps.addVariable name value).on forest = forest.answered (forest.addVariable name value) := by
  rw [Steps.addVariable, Forest.addVariable]
  cases answer : forest.table.resolve name value with
  | error fault => exact on_ask_of_error answer _
  | ok settled =>
      rw [on_ask answer]
      rfl

theorem Linked.on_groupRemove (linked : forest.Linked) (group child : Handle) :
    (Steps.groupRemove group child).on forest =
      forest.answered (forest.groupRemove group child) := by
  rw [Steps.groupRemove, Forest.groupRemove]
  cases found : forest.members group with
  | error fault => exact on_ask_of_error found _
  | ok members =>
      rw [on_ask found]
      cases located : forest.node? child with
      | none =>
          have dead := parent_of_dead located
          rw [on_ask_of_error dead, dead]
          rfl
      | some content =>
          have alive := parent_of_located located
          rw [on_ask alive, alive]
          change _ = forest.answered (if forest.parent? child = some group then _ else _)
          by_cases member : forest.parent? child = some group
          · rw [if_pos member, if_pos member, on_bind_of_ok (linked.on_detach located)]
            rfl
          · rw [if_neg member, if_neg member]
            rfl

end Answers

/-! ### All mutations -/

/-- Steps that come to no handle. -/
def Steps.silent {α : Type} (steps : Steps α) : Steps (Option Handle) :=
  (fun _ => none) <$> steps

inductive Mutation where
  | variable (name : String) (value : Option Number)
  | group (members : List Handle)
  | setLeft (binary : Handle) (child : Option Handle)
  | setRight (binary : Handle) (child : Option Handle)
  | setParent (child : Handle) (parent : Option Handle)
  | groupPush (group child : Handle)
  | groupRemove (group child : Handle)
  | groupClear (group : Handle)
  | remove (node : Handle)

namespace Mutation

def operation : Mutation → Operation
  | .variable name value => .variable name value
  | .group members => .group members
  | .setLeft binary child => .setLeft binary child
  | .setRight binary child => .setRight binary child
  | .setParent child parent => .setParent child parent
  | .groupPush group child => .groupPush group child
  | .groupRemove group child => .groupRemove group child
  | .groupClear group => .groupClear group
  | .remove node => .remove node

def steps : Mutation → Steps (Option Handle)
  | .variable name value => some <$> Steps.addVariable name value
  | .group members => some <$> Steps.addGroup members
  | .setLeft binary child => silent (Steps.setLeft binary child)
  | .setRight binary child => silent (Steps.setRight binary child)
  | .setParent child parent => silent (Steps.setParent child parent)
  | .groupPush group child => silent (Steps.groupPush group child)
  | .groupRemove group child => silent (Steps.groupRemove group child)
  | .groupClear group => silent (Steps.groupClear group)
  | .remove node => silent (Steps.remove node)

end Mutation

theorem on_map {α β : Type} (change : α → β) (steps : Steps α) (forest : Forest) :
    (change <$> steps).on forest = ((steps.on forest).1.map change, (steps.on forest).2) := by
  change (steps >>= fun value => pure (change value)).on forest = _
  cases taken : steps.on forest with
  | _ result after =>
    cases result with
    | error fault => exact on_bind_of_error taken _
    | ok value => exact on_bind_of_ok taken _

theorem on_none_of_outcome {steps : Steps Unit} {result : Except Fault Forest}
    (taken : steps.on forest = forest.outcome result) :
    (silent steps).on forest = forest.kept result := by
  rw [silent, on_map, taken]
  cases result <;> rfl

/-- Step by step, a mutation comes to what it is said to do. -/
theorem Linked.on_steps (linked : forest.Linked) (mutation : Mutation) :
    mutation.steps.on forest = forest.perform mutation.operation := by
  cases mutation with
  | «variable» name value =>
      change (some <$> Steps.addVariable name value).on forest = _
      rw [on_map, on_addVariable, Mutation.operation, Forest.perform]
      cases forest.addVariable name value <;> rfl
  | group members =>
      change (some <$> Steps.addGroup members).on forest = _
      rw [on_map, linked.on_addGroup]
      rfl
  | setLeft binary child => exact on_none_of_outcome (linked.on_setLeft binary child)
  | setRight binary child => exact on_none_of_outcome (linked.on_setRight binary child)
  | setParent child parent => exact on_none_of_outcome (linked.on_setParent child parent)
  | groupPush group child => exact on_none_of_outcome (linked.on_groupPush group child)
  | groupRemove group child =>
      change (silent (Steps.groupRemove group child)).on forest = _
      rw [silent, on_map, linked.on_groupRemove, Mutation.operation, Forest.perform]
      cases forest.groupRemove group child <;> rfl
  | groupClear group => exact on_none_of_outcome (linked.on_groupClear group)
  | remove node => exact on_none_of_outcome (linked.on_remove node)

/-! ### What is left by a refusal -/

theorem kept_of_error {result : Except Fault Forest} {fault : Fault}
    (refused : (forest.kept result).1 = .error fault) : (forest.kept result).2 = forest := by
  cases result with
  | error fault => rfl
  | ok after => cases refused

/-- A refused mutation leaves the forest, but for what the making of a group has worn. -/
theorem eq_or_released_of_refused (mutation : Mutation) {fault : Fault}
    (refused : (forest.perform mutation.operation).1 = .error fault) :
    (forest.perform mutation.operation).2 = forest ∨
      ∃ members, mutation = .group members ∧ ∃ node,
        (forest.perform mutation.operation).2 =
          (forest.allocate node).2.release (forest.allocate node).1 := by
  cases mutation with
  | «variable» name value =>
      rw [Mutation.operation, Forest.perform] at refused ⊢
      split at refused
      next => exact .inl rfl
      next => cases refused
  | group members =>
      refine .inr ⟨members, rfl, .group [], ?_⟩
      rw [Mutation.operation, Forest.perform, Forest.addGroup, addEmptyGroup] at refused ⊢
      dsimp only at refused ⊢
      split at refused
      next => rfl
      next => cases refused
  | _ => exact .inl (kept_of_error refused)

/-- A refused mutation, taken step by step, changes nothing that can be seen.  Only a refused
group may leave one vacant slot a generation further, or one vacant slot more. -/
theorem Reachable.refused_unchanged (reachable : forest.Reachable) (mutation : Mutation) :
    mutation.steps.on forest = forest.perform mutation.operation ∧
    ∀ fault after, mutation.steps.on forest = (.error fault, after) →
      after.table = forest.table ∧ after.nodes = forest.nodes ∧
      (∀ node, after.node? node = forest.node? node ∧ after.parent? node = forest.parent? node) ∧
      (after = forest ∨
        (∃ members, mutation = .group members) ∧ forest.cells.Worn after.cells) := by
  have linked := reachable.linked
  refine ⟨linked.on_steps mutation, fun fault after taken => ?_⟩
  rw [linked.on_steps] at taken
  have left := eq_or_released_of_refused mutation (congrArg Prod.fst taken)
  rw [taken] at left
  rcases left with rfl | ⟨members, isGroup, node, rfl⟩
  · exact ⟨rfl, rfl, fun _ => ⟨rfl, rfl⟩, .inl rfl⟩
  · have worn := Pool.worn_insert linked.formed ⟨node, none⟩
    exact ⟨rfl, worn.handles, linked.same_release_allocate node, .inr ⟨⟨members, isGroup⟩, worn⟩⟩

/-- A group of a node that is gone is not made: the other member stays in its place, and the
assignment above it keeps its value. -/
theorem Reachable.refused_unchanged_group :
    let forest := (⟨.empty, .empty⟩ : Forest).run
      [.variable "x" none, .constant (.int 2), .assignment ⟨0, 0⟩ ⟨1, 0⟩]
    let mutation : Mutation := .group [⟨1, 0⟩, ⟨9, 0⟩]
    forest.Reachable ∧ ∃ after, mutation.steps.on forest = (.error (.removed ⟨9, 0⟩), after) ∧
      after.table = forest.table ∧ forest.table.value? "x" = some (.int 2) ∧
      after.parent? ⟨1, 0⟩ = some ⟨2, 0⟩ ∧ after ≠ forest ∧ forest.cells.Worn after.cells := by
  intro forest mutation
  have reachable : forest.Reachable := ⟨_, _, rfl⟩
  have refused : (mutation.steps.on forest).1 = .error (.removed ⟨9, 0⟩) := by
    unfold forest mutation
    cbv
  have vacant : (mutation.steps.on forest).2.cells.free = [3] := by
    unfold forest mutation
    cbv
  have full : forest.cells.free = [] := by
    unfold forest
    cbv
  obtain ⟨tableKept, -, nodesKept, left⟩ :=
    (refused_unchanged reachable mutation).2 _ _ (Prod.ext refused rfl)
  have changed : (mutation.steps.on forest).2 ≠ forest := by
    intro same
    rw [same, full] at vacant
    cases vacant
  refine ⟨reachable, _, Prod.ext refused rfl, tableKept, ?_, ?_, changed, ?_⟩
  · unfold forest
    cbv
  · rw [(nodesKept ⟨1, 0⟩).2]
    unfold forest
    cbv
  · exact (left.resolve_left changed).2

end Forest

end Worksheet
