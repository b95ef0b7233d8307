import Worksheet.Proofs.Forest.Accounting
import Worksheet.Proofs.Forest.Moving

/-!
# What operations leave alone

An operation changes the contents of the nodes to which it gives a child and of those from
which it takes one, and it frees the nodes below the one that it removes.  All other nodes
keep their contents, so a tree of such nodes outlives any number of operations.
-/

namespace Worksheet

namespace Forest

namespace Operation

def receiver? : Operation → Option Handle
  | .setLeft node _ | .setRight node _ | .groupPush node _ => some node
  | .setParent _ parent => parent
  | _ => none

def Frees (forest : Forest) (low : Handle) : Operation → Prop
  | .remove node => forest.Below low node
  | .clear => True
  | _ => False

/-- The operation gives no child to the node and takes none from it, and it does not free the
node.  The node itself may be moved. -/
structure Spares (operation : Operation) (forest : Forest) (low : Handle) : Prop where
  receives : operation.receiver? ≠ some low
  loses : ∀ child ∈ (operation.resolved forest).taken forest, ¬forest.IsChild child low
  stays : ¬operation.Frees forest low

theorem mem_taken_setParent (forest : Forest) (child : Handle) (parent : Option Handle) :
    child ∈ ((Operation.setParent child parent).resolved forest).taken forest := by
  cases parent with
  | none => simp [resolved, taken]
  | some parent =>
      simp only [resolved]
      split <;> simp [taken]

end Operation

variable {forest forest' : Forest} {low : Handle} {content : Node}

/-! ### Steps on links -/

theorem node?_detach_of_not_mem {child : Handle} (located : forest.node? low = some content)
    (absent : child ∉ content.children) : (forest.detach child).node? low = some content := by
  cases above : forest.parent? child with
  | none => rwa [detach_of_root above]
  | some parent =>
      rw [node?, cells_detach_of_parent? above, ← node?, node?_setParentLink, node?_changeNode]
      split
      next same => rw [← same, located, Option.map_some, Node.without_of_not_mem absent]
      next => exact located

theorem node?_detachAll_of_not_mem {children : List Handle}
    (located : forest.node? low = some content)
    (absent : ∀ child ∈ children, child ∉ content.children) :
    (children.foldl detach forest).node? low = some content := by
  induction children generalizing forest with
  | nil => exact located
  | cons child rest inductionHypothesis =>
      obtain ⟨first, others⟩ := List.forall_mem_cons.mp absent
      exact inductionHypothesis (node?_detach_of_not_mem located first) others

theorem node?_adopt_of_not_mem {group child : Handle} (located : forest.node? low = some content)
    (different : low ≠ group) (absent : child ∉ content.children) :
    (forest.adopt group child).node? low = some content := by
  rw [adopt, node?_setParentLink, node?_changeNode, if_neg different]
  exact node?_detach_of_not_mem located absent

theorem node?_adoptAll_of_not_mem {group : Handle} {members : List Handle}
    (located : forest.node? low = some content) (different : low ≠ group)
    (absent : ∀ member ∈ members, member ∉ content.children) :
    (members.foldl (fun forest member => forest.adopt group member) forest).node? low =
      some content := by
  induction members generalizing forest with
  | nil => exact located
  | cons member rest inductionHypothesis =>
      obtain ⟨first, others⟩ := List.forall_mem_cons.mp absent
      exact inductionHypothesis (node?_adopt_of_not_mem located different first) others

theorem node?_link_of_not_mem {binary : Handle} {child : Option Handle}
    (located : forest.node? low = some content) (different : low ≠ binary) (side : Side)
    (absent : ∀ node ∈ child.toList, node ∉ content.children) :
    (forest.link binary side child).node? low = some content := by
  cases child with
  | none => rwa [link, node?_place, if_neg different]
  | some node =>
      rw [link]
      split
      next => exact located
      next =>
        rw [node?_place, if_neg different]
        exact node?_detach_of_not_mem located (absent node (by simp))

theorem node?_linkBoth_of_not_mem {operator : Operator} {binary : Handle}
    {left right : Option Handle} (located : forest.node? low = some content)
    (different : low ≠ binary)
    (absent : ∀ node ∈ left.toList ++ right.toList, node ∉ content.children)
    (value : Option Number) :
    (forest.linkBoth operator binary left right value).node? low = some content := by
  obtain ⟨first, second⟩ := List.forall_mem_append.mp absent
  have once := node?_link_of_not_mem located different .left first
  have both := node?_link_of_not_mem once different .right second
  rw [linkBoth]
  split
  next => exact (node?_store _ binary low value).trans both
  next => exact both

/-! ### Making nodes -/

theorem Linked.node?_addVariable (linked : forest.Linked) {name : String} {value : Option Number}
    {made : Handle × Forest} (done : forest.addVariable name value = .ok made)
    (located : forest.node? low = some content) : made.2.node? low = some content := by
  obtain ⟨settled, -, done⟩ := bind_eq_ok_iff.mp done
  cases done
  exact node?_allocate_of_live (linked.withTable settled.2).formed (.variable name) located

theorem Linked.node?_addBinary (linked : forest.Linked) (operator : Operator)
    {left right : Option Handle} (located : forest.node? low = some content)
    (absent : ∀ node ∈ left.toList ++ right.toList, node ∉ content.children) :
    (forest.addBinary operator left right).2.node? low = some content := by
  have adds := forest.addsBinary operator left right
  generalize forest.addBinary operator left right = result at adds ⊢
  cases adds with
  | twice => exact located
  | unprepared => exact located
  | @refused value table fault node allocated apart prepared new =>
      cases new
      exact ((linked.withTable table).same_release_allocate _ low).1.trans located
  | @made value table node allocated apart prepared new _ _ =>
      cases new
      have formed := (linked.withTable table).formed
      apply node?_linkBoth_of_not_mem _ _ absent
      · exact node?_allocate_of_live formed _ located
      · exact ne_of_fresh located (node?_allocate_handle formed (.binary operator none none))

theorem Linked.node?_addGroup (linked : forest.Linked) {members : List Handle}
    (located : forest.node? low = some content)
    (absent : ∀ member ∈ members, member ∉ content.children) :
    (forest.addGroup members).2.node? low = some content := by
  rw [Forest.addGroup, addEmptyGroup]
  dsimp only
  split
  next => exact (linked.same_release_allocate (.group []) low).1.trans located
  next =>
    apply node?_adoptAll_of_not_mem _ _ absent
    · exact node?_allocate_of_live linked.formed _ located
    · exact ne_of_fresh located (node?_allocate_handle linked.formed (.group []))

theorem Linked.node?_graft (linked : forest.Linked) (expr : Expr)
    (located : forest.node? low = some content) :
    (forest.graft expr).2.node? low = some content := by
  have grafts := linked.grafts expr
  generalize forest.graft expr = result at grafts ⊢
  cases grafts with
  | made grafted known => exact (grafted.kept low content located).1
  | refused _ same => exact (same low).1.trans located

/-! ### Changing nodes -/

theorem node?_of_setLeft {binary : Handle} {child : Option Handle}
    (done : forest.setLeft binary child = .ok forest') (located : forest.node? low = some content)
    (different : low ≠ binary) (absent : ∀ node ∈ child.toList, node ∉ content.children) :
    forest'.node? low = some content := by
  obtain ⟨table, same⟩ := cells_of_setLeft done
  have located' : ({ forest with table } : Forest).node? low = some content := located
  rw [node?, same]
  exact node?_link_of_not_mem located' different .left absent

theorem node?_of_setRight {binary : Handle} {child : Option Handle}
    (done : forest.setRight binary child = .ok forest') (located : forest.node? low = some content)
    (different : low ≠ binary) (absent : ∀ node ∈ child.toList, node ∉ content.children) :
    forest'.node? low = some content := by
  obtain ⟨table, same⟩ := cells_of_setRight done
  have located' : ({ forest with table } : Forest).node? low = some content := located
  rw [node?, same]
  exact node?_link_of_not_mem located' different .right absent

theorem node?_of_groupPush {group child : Handle} (done : forest.groupPush group child = .ok forest')
    (located : forest.node? low = some content) (different : low ≠ group)
    (absent : child ∉ content.children) : forest'.node? low = some content := by
  obtain ⟨_, -, done⟩ := bind_eq_ok_iff.mp done
  obtain ⟨_, -, done⟩ := bind_eq_ok_iff.mp done
  cases done
  exact node?_adopt_of_not_mem located different absent

theorem node?_of_groupRemove {group child : Handle} {answer : Bool × Forest}
    (done : forest.groupRemove group child = .ok answer)
    (located : forest.node? low = some content) (absent : child ∉ content.children) :
    answer.2.node? low = some content := by
  obtain ⟨_, -, done⟩ := bind_eq_ok_iff.mp done
  obtain ⟨_, -, done⟩ := bind_eq_ok_iff.mp done
  split at done
  next =>
    cases done
    exact node?_detach_of_not_mem located absent
  next =>
    cases done
    exact located

theorem node?_of_groupClear {group : Handle} (done : forest.groupClear group = .ok forest')
    (located : forest.node? low = some content)
    (absent : ∀ child ∈ ((forest.node? group).map Node.children).getD [],
      child ∉ content.children) : forest'.node? low = some content := by
  obtain ⟨members, found, done⟩ := bind_eq_ok_iff.mp done
  cases done
  have group' := members_eq_ok_iff.mp found
  rw [group'] at absent
  rw [detachMembers, group']
  exact node?_detachAll_of_not_mem located absent

theorem node?_of_setParent {child : Handle} {parent : Option Handle}
    (done : forest.setParent child parent = .ok forest')
    (located : forest.node? low = some content) (different : parent ≠ some low)
    (absent : child ∉ content.children) : forest'.node? low = some content := by
  have apart {above : Handle} (same : parent = some above) : low ≠ above := by
    rintro rfl
    exact different same
  have single : ∀ node ∈ (some child).toList, node ∉ content.children := by simpa using absent
  rcases setParent_cases done with ⟨-, rfl⟩ | ⟨above, same, pushed | setLeft | setRight⟩
  · exact node?_detach_of_not_mem located absent
  · exact node?_of_groupPush pushed located (apart same) absent
  · exact node?_of_setLeft setLeft located (apart same) single
  · exact node?_of_setRight setRight located (apart same) single

theorem Linked.node?_of_remove (linked : forest.Linked) {node : Handle}
    (done : forest.remove node = .ok forest') (located : forest.node? low = some content)
    (apart : ¬forest.Below low node) (absent : node ∉ content.children) :
    forest'.node? low = some content := by
  obtain ⟨_, -, done⟩ := bind_eq_ok_iff.mp done
  cases done
  rw [linked.node?_removeTree apart, located, Option.map_some, Node.without_of_not_mem absent]

/-! ### Operations -/

theorem node?_kept {outcome : Except Fault Forest} (located : forest.node? low = some content)
    (step : ∀ forest', outcome = .ok forest' → forest'.node? low = some content) :
    (kept forest outcome).2.node? low = some content :=
  kept_induction (motive := fun after => after.node? low = some content) located step

theorem Linked.node?_perform (linked : forest.Linked) {operation : Operation}
    (located : forest.node? low = some content) (spares : operation.Spares forest low) :
    (forest.perform operation).2.node? low = some content := by
  have absent (child : Handle) (member : child ∈ (operation.resolved forest).taken forest) :
      child ∉ content.children :=
    fun listed => spares.loses child member ⟨content, located, listed⟩
  have different {other : Handle} (receives : operation.receiver? = some other) : low ≠ other :=
    fun same => spares.receives (receives.trans (congrArg some same.symm))
  cases operation with
  | constant value => exact node?_allocate_of_live linked.formed _ located
  | «variable» name value =>
      rw [Forest.perform]
      split
      next => exact located
      next done => exact linked.node?_addVariable done located
  | binary operator left right => exact linked.node?_addBinary operator located absent
  | assignment target source => exact linked.node?_addBinary .assign located absent
  | emptyGroup => exact node?_allocate_of_live linked.formed _ located
  | group members => exact linked.node?_addGroup located absent
  | graft expr => exact linked.node?_graft expr located
  | setLeft binary child =>
      exact node?_kept located fun _ done => node?_of_setLeft done located (different rfl) absent
  | setRight binary child =>
      exact node?_kept located fun _ done => node?_of_setRight done located (different rfl) absent
  | setParent child parent =>
      apply node?_kept located
      intro forest' done
      exact node?_of_setParent done located spares.receives
        (absent child (Operation.mem_taken_setParent forest child parent))
  | groupPush group child =>
      have alone := absent child (by simp [Operation.resolved, Operation.taken])
      exact node?_kept located fun _ done => node?_of_groupPush done located (different rfl) alone
  | groupRemove group child =>
      have alone := absent child (by simp [Operation.resolved, Operation.taken])
      refine node?_kept located fun forest' done => ?_
      obtain ⟨answer, removed, rfl⟩ := map_eq_ok_iff.mp done
      exact node?_of_groupRemove removed located alone
  | groupClear group =>
      exact node?_kept located fun _ done => node?_of_groupClear done located absent
  | remove node =>
      have alone := absent node (by simp [Operation.resolved, Operation.taken])
      exact node?_kept located fun _ done =>
        linked.node?_of_remove done located spares.stays alone
  | clear => exact absurd trivial spares.stays
  | value node =>
      obtain ⟨value, table, valued⟩ := forest.value_eq node
      rw [Forest.perform, valued]
      exact located
  | tryValue node =>
      obtain ⟨value, table, valued⟩ := forest.tryValue_eq node
      rw [Forest.perform, valued]
      exact located
  | table call =>
      refine node?_kept located fun forest' done => ?_
      obtain ⟨table, -, rfl⟩ := map_eq_ok_iff.mp done
      exact located

/-! ### Runs -/

/-- No operation touches the trees of the nodes as they are when it is performed.  It leaves
every node there alone, or it has no effect on its content, like one that is refused. -/
def Undisturbed (forest : Forest) (tops : List Handle) : List Operation → Prop
  | [] => True
  | operation :: rest =>
      (∀ top ∈ tops, ∀ low, forest.Below low top → operation.Spares forest low ∨
        (forest.perform operation).2.node? low = forest.node? low) ∧
      (forest.perform operation).2.Undisturbed tops rest

theorem Below.of_same {top : Handle}
    (same : ∀ low, forest.Below low top → forest'.node? low = forest.node? low)
    (below : forest.Below low top) : forest'.Below low top := by
  induction below using Relation.ReflTransGen.head_induction_on with
  | refl => exact .refl
  | @head low next up rest inductionHypothesis =>
      obtain ⟨content, located, member⟩ := up
      exact .head ⟨content, (same next rest).trans located, member⟩ inductionHypothesis

/-- A tree that is not touched keeps all its nodes, whatever else is done. -/
theorem Linked.node?_run (linked : forest.Linked) {tops : List Handle}
    {operations : List Operation} (undisturbed : forest.Undisturbed tops operations) {top : Handle}
    (member : top ∈ tops) (live : forest.isLive top = true) (below : forest.Below low top) :
    (forest.run operations).node? low = forest.node? low := by
  induction operations generalizing forest with
  | nil => rfl
  | cons operation rest inductionHypothesis =>
      obtain ⟨spared, later⟩ := undisturbed
      obtain ⟨upper, above⟩ := isLive_iff.mp live
      have same (low : Handle) (below : forest.Below low top) :
          (forest.perform operation).2.node? low = forest.node? low := by
        rcases spared top member low below with spares | same
        · obtain ⟨content, located⟩ := linked.live_of_below above below
          exact (linked.node?_perform located spares).trans located.symm
        · exact same
      calc
        ((forest.perform operation).2.run rest).node? low
          = (forest.perform operation).2.node? low := by
            apply inductionHypothesis (linked.perform operation) later _ (below.of_same same)
            exact isLive_iff.mpr ⟨upper, (same top .refl).trans above⟩
        _ = forest.node? low := same low below

end Forest

end Worksheet
