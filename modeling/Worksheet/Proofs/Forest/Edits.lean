import Worksheet.Proofs.Forest.Joining

/-!
# Edits of linked forests

The checks before an edit make sure of what its steps rely on, so that every edit of a
linked forest leaves a linked one.
-/

namespace Worksheet

theorem bind_eq_ok_iff {ε α β : Type} {first : Except ε α} {next : α → Except ε β}
    {result : β} :
    first >>= next = .ok result ↔ ∃ value, first = .ok value ∧ next value = .ok result := by
  cases first with
  | error problem => simp [bind, Except.bind]
  | ok value => simp [bind, Except.bind]

theorem error_of_map {ε α β : Type} {outcome : Except ε α} {change : α → β} {problem : ε}
    (failed : outcome.map change = .error problem) : outcome = .error problem := by
  cases outcome with
  | error problem' =>
      cases failed
      rfl
  | ok value => cases failed

theorem map_eq_ok_iff {ε α β : Type} {outcome : Except ε α} {change : α → β} {result : β} :
    outcome.map change = .ok result ↔ ∃ value, outcome = .ok value ∧ change value = result := by
  cases outcome with
  | error problem => simp [Except.map]
  | ok value => simp [Except.map]

theorem Node.misplacement?_eq_none_iff {child parent : Node} :
    child.misplacement? parent = none ↔
      child.isGroup = false ∧ parent.isTerminal = false ∧
        (child.isAssignment = true → parent.operator? = none) := by
  unfold misplacement?
  cases child.isGroup <;> cases parent.isTerminal <;> cases child.isAssignment <;>
    cases parent.operator? <;> simp

namespace Forest

variable {forest : Forest}

/-! ### Checks -/

theorem node_eq_ok_iff {handle : Handle} {content : Node} :
    forest.node handle = .ok content ↔ forest.node? handle = some content := by
  unfold node
  cases forest.node? handle <;> simp

theorem Linked.checkChild_eq_ok_iff (linked : forest.Linked) {parent child : Handle} :
    forest.checkChild parent child = .ok () ↔
      ∃ upper lower, forest.node? parent = some upper ∧ forest.node? child = some lower ∧
        lower.misplacement? upper = none ∧ ¬forest.Below parent child := by
  simp only [checkChild, bind_eq_ok_iff, node_eq_ok_iff, ← linked.contains_iff]
  constructor
  · rintro ⟨upper, located, lower, found, checked⟩
    split at checked
    next => cases checked
    next allowed =>
      split at checked
      next => cases checked
      next apart => exact ⟨upper, lower, located, found, allowed, apart⟩
  · rintro ⟨upper, lower, located, found, allowed, apart⟩
    exact ⟨upper, located, lower, found, by rw [allowed]; exact if_neg apart⟩

theorem checkTarget_eq_ok_iff {target : Handle} :
    forest.checkTarget target = .ok () ↔ ∃ name, forest.node? target = some (.variable name) := by
  simp only [checkTarget, bind_eq_ok_iff, node_eq_ok_iff]
  constructor
  · rintro ⟨content, found, checked⟩
    split at checked
    next named =>
      obtain ⟨name, rfl⟩ := Node.isVariable_eq_true_iff.mp named
      exact ⟨name, found⟩
    next => cases checked
  · rintro ⟨name, found⟩
    exact ⟨_, found, rfl⟩

/-- A checked child fits, if it is a variable where it has to be. -/
theorem Linked.fits_of_checkChild (linked : forest.Linked) {binary child : Handle} {content : Node}
    {operator : Operator} {side : Side} (located : forest.node? binary = some content)
    (isBinary : content.operator? = some operator)
    (checked : forest.checkChild binary child = .ok ())
    (target : operator = .assign → side = .left →
      ∃ name, forest.node? child = some (.variable name)) :
    forest.Fits operator binary side child := by
  obtain ⟨upper, lower, found, below, allowed, apart⟩ := linked.checkChild_eq_ok_iff.mp checked
  cases located.symm.trans found
  obtain ⟨single, -, topmost⟩ := Node.misplacement?_eq_none_iff.mp allowed
  refine ⟨apart, lower, below, single, ?_, fun assign left => ?_⟩
  · cases isAssignment : lower.isAssignment with
    | false => rfl
    | true =>
        rw [topmost isAssignment] at isBinary
        cases isBinary
  · obtain ⟨name, named⟩ := target assign left
    cases below.symm.trans named
    rfl

/-! ### Moving to the place of an operand -/

section Link

variable {binary : Handle} {content : Node} {operator : Operator} {side : Side}

theorem Linked.fits_detach (linked : forest.Linked) {child node : Handle}
    (fits : forest.Fits operator binary side child) :
    (forest.detach node).Fits operator binary side child := by
  obtain ⟨apart, lower, found, single, notAssignment, target⟩ := fits
  refine ⟨fun below => apart (linked.below_of_detach below), lower.without node, ?_, ?_, ?_, ?_⟩
  · rw [linked.node?_detach, found, Option.map_some]
  · rw [Node.isGroup_without, single]
  · rw [← Node.isAssignment_bare, Node.bare_without, Node.isAssignment_bare, notAssignment]
  · rw [← Node.isVariable_bare, Node.bare_without, Node.isVariable_bare]
    exact target

theorem Linked.link (linked : forest.Linked) (located : forest.node? binary = some content)
    (isBinary : content.operator? = some operator) {child : Option Handle}
    (fits : ∀ node, child = some node → forest.Fits operator binary side node) :
    (forest.link binary side child).Linked := by
  cases child with
  | none => exact linked.place_none binary side
  | some node =>
      rw [Forest.link]
      split
      next => exact linked
      next =>
        have located' : (forest.detach node).node? binary = some (content.without node) := by
          rw [linked.node?_detach, located, Option.map_some]
        refine (linked.detach node).place_some located' ?_ ?_ (linked.fits_detach (fits node rfl))
        · rw [Node.operator?_without, isBinary]
        · rw [parent?_detach, if_pos rfl]

theorem bare_node?_place (forest : Forest) (binary other : Handle) (side : Side)
    (child : Option Handle) :
    ((forest.place binary side child).node? other).map Node.bare =
      (forest.node? other).map Node.bare := by
  rw [node?_place]
  split
  next same =>
    rw [same, Option.map_map]
    congr 1
    funext node
    exact node.bare_withOperand side child
  next => rfl

theorem Linked.bare_node?_link (linked : forest.Linked) (binary other : Handle) (side : Side)
    (child : Option Handle) :
    ((forest.link binary side child).node? other).map Node.bare =
      (forest.node? other).map Node.bare := by
  cases child with
  | none => exact bare_node?_place forest binary other side none
  | some node =>
      rw [Forest.link]
      split
      next => rfl
      next => rw [bare_node?_place, linked.bare_node?_detach]

theorem parent?_link_of_root {other : Handle} (root : forest.parent? other = none)
    {child : Option Handle} (different : child ≠ some other) :
    (forest.link binary side child).parent? other = none := by
  cases child with
  | none =>
      rw [Forest.link, parent?_place_none, root, ite_self]
  | some node =>
      rw [Forest.link]
      split
      next => exact root
      next =>
        have elsewhere : other ≠ node := fun same => different (congrArg some same.symm)
        have away : (forest.detach node).parent? other = none := by
          rw [parent?_detach, if_neg elsewhere, root]
        rw [place, parent?_setParentLink, if_neg elsewhere, parent?_changeNode, parent?_orphan,
          away, ite_self]

end Link

/-! ### Values -/

/-- Looking for a value leaves the nodes alone. -/
theorem value_eq (forest : Forest) (node : Handle) :
    ∃ value table, forest.value node = (value, { forest with table }) := by
  unfold value
  split
  next => exact ⟨_, _, rfl⟩
  next => exact ⟨_, _, rfl⟩

theorem tryValue_eq (forest : Forest) (node : Handle) :
    ∃ value table, forest.tryValue node = (value, { forest with table }) := by
  obtain ⟨value, table, valued⟩ := forest.value_eq node
  unfold tryValue
  split
  next => exact ⟨_, table, by rw [valued]⟩
  next => exact ⟨_, _, rfl⟩

theorem assignedValue_eq (forest : Forest) (right : Option Handle) :
    ∃ value table, forest.assignedValue right = (value, { forest with table }) := by
  cases right with
  | none => exact ⟨_, _, rfl⟩
  | some node => exact forest.tryValue_eq node

theorem prepare_eq (forest : Forest) (operator : Operator) (left right : Option Handle) :
    ∃ value table, forest.prepare operator left right = (value, { forest with table }) := by
  unfold prepare
  split
  next =>
    split
    next => exact ⟨_, _, rfl⟩
    next => exact forest.assignedValue_eq right
  next => exact ⟨_, _, rfl⟩

theorem target_of_prepare {operator : Operator} {left : Handle} {right : Option Handle}
    {value : Option Number} (prepared : (forest.prepare operator (some left) right).1 = .ok value)
    (assign : operator = .assign) : ∃ name, forest.node? left = some (.variable name) := by
  rw [prepare, if_pos assign, Option.elim_some] at prepared
  split at prepared
  next => cases prepared
  next checked => exact checkTarget_eq_ok_iff.mp checked

theorem Fits.withTable {operator : Operator} {binary child : Handle} {side : Side}
    (fits : forest.Fits operator binary side child) (table : Variables) :
    ({ forest with table } : Forest).Fits operator binary side child :=
  ⟨fits.apart, fits.content⟩

theorem Linked.withTable (linked : forest.Linked) (table : Variables) :
    ({ forest with table } : Forest).Linked :=
  linked.of_cells_eq rfl

theorem Linked.store (linked : forest.Linked) (assignment : Handle) (value : Option Number) :
    (forest.store assignment value).Linked :=
  linked.of_cells_eq (forest.cells_store assignment value)

/-! ### Making nodes -/

theorem checkOperand_eq_ok_iff {parent : Handle} {child : Option Handle} :
    forest.checkOperand parent child = .ok () ↔
      ∀ node, child = some node → forest.checkChild parent node = .ok () := by
  cases child with
  | none => simp [checkOperand]
  | some node => simp [checkOperand]

theorem Linked.release_allocate (linked : forest.Linked) {node : Node} (leaf : node.children = []) :
    ((forest.allocate node).2.release (forest.allocate node).1).Linked := by
  change ([(forest.allocate node).1].foldl release (forest.allocate node).2).Linked
  refine (linked.allocate leaf).releaseAll fun child parent down => ?_
  have old := (isChild_allocate_iff linked.formed leaf).mp down
  have fresh := node?_allocate_handle linked.formed node
  obtain ⟨content, live⟩ := node?_of_parent? (linked.parent?_of_child _ _ old)
  obtain ⟨content', live', -⟩ := old
  rw [List.mem_singleton, List.mem_singleton]
  exact iff_of_false (ne_of_fresh live fresh) (ne_of_fresh live' fresh)

theorem Linked.fits_left_allocate (linked : forest.Linked) {operator : Operator} {child : Handle}
    (checked : (forest.allocate (.binary operator none none)).2.checkChild
      (forest.allocate (.binary operator none none)).1 child = .ok ())
    (target : operator = .assign → ∃ name, forest.node? child = some (.variable name)) :
    (forest.allocate (.binary operator none none)).2.Fits operator
      (forest.allocate (.binary operator none none)).1 .left child := by
  have made : (forest.allocate (.binary operator none none)).2.Linked := linked.allocate rfl
  refine made.fits_of_checkChild (node?_allocate_self linked.formed _) rfl checked
    fun assign _ => ?_
  obtain ⟨name, named⟩ := target assign
  exact ⟨name, node?_allocate_of_live linked.formed _ named⟩

theorem Linked.linkBoth (linked : forest.Linked) {operator : Operator} {binary : Handle}
    {left right : Option Handle} (located : forest.node? binary = some (.binary operator none none))
    (root : forest.parent? binary = none)
    (first : ∀ node, left = some node → forest.Fits operator binary .left node)
    (second : ∀ node, right = some node → forest.Fits operator binary .right node)
    (value : Option Number) : (forest.linkBoth operator binary left right value).Linked := by
  have once := linked.link located rfl first
  have apart (node : Handle) (below : left = some node ∨ right = some node) : node ≠ binary := by
    rintro rfl
    rcases below with same | same
    · exact (first node same).apart .refl
    · exact (second node same).apart .refl
  have bares (other : Handle) := linked.bare_node?_link binary other .left left
  obtain ⟨content, located', bare⟩ := exists_of_bare (bares binary).symm located
  have isBinary : content.operator? = some operator := by
    rw [← Node.operator?_bare, ← bare]
    rfl
  have both : ((forest.link binary .left left).link binary .right right).Linked := by
    refine once.link located' isBinary fun node same => ?_
    obtain ⟨-, lower, found, single, notAssignment, -⟩ := second node same
    obtain ⟨lower', found', bare⟩ := exists_of_bare (bares node).symm found
    refine ⟨fun below => ?_, lower', found', ?_, ?_, fun _ side => by cases side⟩
    · -- The new node has no parent, so it is below itself only.
      have alone : (forest.link binary .left left).parent? binary = none :=
        parent?_link_of_root root fun self => apart binary (.inl self) rfl
      exact apart node (.inr same) (once.eq_of_below_of_root below alone).symm
    · rw [← Node.isGroup_bare, ← bare, Node.isGroup_bare, single]
    · rw [← Node.isAssignment_bare, ← bare, Node.isAssignment_bare, notAssignment]
  rw [Forest.linkBoth]
  split
  next => exact both.store binary value
  next => exact both

/-- How the making of a binary node ends: its operands are the same node, its value cannot be
prepared, its operands may not be adopted, or it is made. -/
inductive AddsBinary (forest : Forest) (operator : Operator) (left right : Option Handle) :
    Except Fault Handle × Forest → Prop where
  | twice (same : left = right) :
      AddsBinary forest operator left right (.error (.misplaced .operandTwice), forest)
  | unprepared {fault : Fault} {table : Variables} (apart : left.isSome = true → left ≠ right)
      (prepared : forest.prepare operator left right = (.error fault, { forest with table })) :
      AddsBinary forest operator left right (.error fault, { forest with table })
  | refused {value : Option Number} {table : Variables} {fault : Fault} {node : Handle}
      {allocated : Forest} (apart : left.isSome = true → left ≠ right)
      (prepared : forest.prepare operator left right = (.ok value, { forest with table }))
      (new : ({ forest with table } : Forest).allocate (.binary operator none none) =
        (node, allocated)) :
      AddsBinary forest operator left right (.error fault, allocated.release node)
  | made {value : Option Number} {table : Variables} {node : Handle} {allocated : Forest}
      (apart : left.isSome = true → left ≠ right)
      (prepared : forest.prepare operator left right = (.ok value, { forest with table }))
      (new : ({ forest with table } : Forest).allocate (.binary operator none none) =
        (node, allocated))
      (leftChecked : allocated.checkOperand node left = .ok ())
      (rightChecked : allocated.checkOperand node right = .ok ()) :
      AddsBinary forest operator left right
        (.ok node, allocated.linkBoth operator node left right value)

theorem addsBinary (forest : Forest) (operator : Operator) (left right : Option Handle) :
    forest.AddsBinary operator left right (forest.addBinary operator left right) := by
  rw [Forest.addBinary]
  split
  next twice => exact .twice (by simpa using (Bool.and_eq_true_iff.mp twice).2)
  next different =>
    have apart : left.isSome = true → left ≠ right := by simpa using different
    obtain ⟨outcome, table, prepared⟩ := forest.prepare_eq operator left right
    rw [prepared]
    cases outcome with
    | error fault => exact .unprepared apart prepared
    | ok value =>
        dsimp only
        split
        next => exact .refused apart prepared rfl
        next checked =>
          obtain ⟨_, leftChecked, rightChecked⟩ := bind_eq_ok_iff.mp checked
          exact .made apart prepared rfl leftChecked rightChecked

theorem Linked.addBinary (linked : forest.Linked) (operator : Operator)
    (left right : Option Handle) : (forest.addBinary operator left right).2.Linked := by
  have adds := forest.addsBinary operator left right
  generalize forest.addBinary operator left right = result at adds
  have leaf : (Node.binary operator none none).children = [] := rfl
  cases adds with
  | twice => exact linked
  | unprepared => exact linked.withTable _
  | @refused value table fault node allocated apart prepared new =>
      cases new
      exact (linked.withTable table).release_allocate leaf
  | @made value table node allocated apart prepared new leftChecked rightChecked =>
      cases new
      have before := linked.withTable table
      have made := before.allocate leaf
      have located := node?_allocate_self before.formed (.binary operator none none)
      have leftChecked := checkOperand_eq_ok_iff.mp leftChecked
      have rightChecked := checkOperand_eq_ok_iff.mp rightChecked
      refine made.linkBoth located ?_ ?_ ?_ value
      · rw [parent?_allocate before.formed]
        exact parent?_of_dead (node?_allocate_handle before.formed _)
      · intro node same
        refine before.fits_left_allocate (leftChecked node same) fun assign => ?_
        subst same
        obtain ⟨name, named⟩ := target_of_prepare (congrArg Prod.fst prepared) assign
        exact ⟨name, named⟩
      · intro node same
        exact made.fits_of_checkChild located rfl (rightChecked node same)
          fun _ side => by cases side

theorem Linked.single_adopt (linked : forest.Linked) (group child : Handle) {other : Handle}
    (found : ∃ content, forest.node? other = some content ∧ content.isGroup = false) :
    ∃ content, (forest.adopt group child).node? other = some content ∧
      content.isGroup = false := by
  obtain ⟨lower, below, alone⟩ := found
  obtain ⟨content, found, bare⟩ :=
    exists_of_bare (linked.bare_node?_adopt group child other).symm below
  exact ⟨content, found, by rw [← content.isGroup_bare, ← bare, lower.isGroup_bare, alone]⟩

theorem Linked.adoptAll (linked : forest.Linked) {group : Handle} {members : List Handle}
    (located : ∃ before, forest.node? group = some (.group before))
    (found : ∀ member ∈ members, ∃ node, forest.node? member = some node ∧ node.isGroup = false) :
    (members.foldl (fun forest member => forest.adopt group member) forest).Linked := by
  induction members generalizing forest with
  | nil => exact linked
  | cons member rest inductionHypothesis =>
      obtain ⟨before, located⟩ := located
      obtain ⟨node, here, single⟩ := found member List.mem_cons_self
      refine inductionHypothesis (linked.adopt located here single) ?_ fun other later => ?_
      · exact exists_group_of_bare (linked.bare_node?_adopt group member group).symm located
      · exact linked.single_adopt group member (found other (List.mem_cons_of_mem member later))

theorem forM_eq_ok_iff {α : Type} {check : α → Except Fault Unit} {values : List α} :
    values.forM check = .ok () ↔ ∀ value ∈ values, check value = .ok () := by
  induction values with
  | nil => simp [pure, Except.pure]
  | cons head rest inductionHypothesis =>
      rw [List.forM, bind_eq_ok_iff, List.forall_mem_cons, ← inductionHypothesis]
      constructor
      · rintro ⟨⟨⟩, first, others⟩
        exact ⟨first, others⟩
      · rintro ⟨first, others⟩
        exact ⟨(), first, others⟩

theorem Linked.addGroup (linked : forest.Linked) (members : List Handle) :
    (forest.addGroup members).2.Linked := by
  have leaf : (Node.group []).children = [] := rfl
  have made := linked.allocate leaf
  have located := node?_allocate_self linked.formed (.group [])
  rw [Forest.addGroup, addEmptyGroup]
  dsimp only
  split
  next => exact linked.release_allocate leaf
  next checked =>
    refine made.adoptAll ⟨[], located⟩ fun member listed => ?_
    obtain ⟨upper, lower, -, found, allowed, -⟩ :=
      made.checkChild_eq_ok_iff.mp (forM_eq_ok_iff.mp checked member listed)
    exact ⟨lower, found, (Node.misplacement?_eq_none_iff.mp allowed).1⟩

/-! ### Changing operands -/

theorem operator_eq_ok_iff {binary : Handle} {operator : Operator} :
    forest.operator binary = .ok operator ↔
      ∃ content, forest.node? binary = some content ∧ content.operator? = some operator := by
  unfold Forest.operator
  cases forest.node? binary with
  | none => simp
  | some node => cases node <;> simp [Node.operator?]

theorem Linked.setLeft (linked : forest.Linked) {binary : Handle} {child : Option Handle}
    {forest' : Forest} (done : forest.setLeft binary child = .ok forest') : forest'.Linked := by
  obtain ⟨operator, found, done⟩ := bind_eq_ok_iff.mp done
  obtain ⟨content, located, isBinary⟩ := operator_eq_ok_iff.mp found
  split at done
  next assign =>
    obtain ⟨_, target, done⟩ := bind_eq_ok_iff.mp done
    obtain ⟨_, checked, done⟩ := bind_eq_ok_iff.mp done
    obtain ⟨right, -, done⟩ := bind_eq_ok_iff.mp done
    obtain ⟨outcome, table, prepared⟩ := forest.assignedValue_eq right
    rw [prepared] at done
    obtain ⟨value, -, done⟩ := bind_eq_ok_iff.mp done
    have moved : (({ forest with table } : Forest).link binary .left child).Linked := by
      refine (linked.withTable table).link located isBinary fun node same => ?_
      have checked := checkOperand_eq_ok_iff.mp checked node same
      refine (linked.fits_of_checkChild located isBinary checked fun _ _ => ?_).withTable table
      subst same
      exact checkTarget_eq_ok_iff.mp target
    cases value with
    | none =>
        cases done
        exact moved
    | some value =>
        cases done
        exact moved.store binary _
  next other =>
    obtain ⟨_, checked, done⟩ := bind_eq_ok_iff.mp done
    cases done
    refine linked.link located isBinary fun node same => ?_
    exact linked.fits_of_checkChild located isBinary (checkOperand_eq_ok_iff.mp checked node same)
      fun assign _ => absurd assign other

theorem Linked.setRight (linked : forest.Linked) {binary : Handle} {child : Option Handle}
    {forest' : Forest} (done : forest.setRight binary child = .ok forest') : forest'.Linked := by
  obtain ⟨operator, found, done⟩ := bind_eq_ok_iff.mp done
  obtain ⟨content, located, isBinary⟩ := operator_eq_ok_iff.mp found
  have fits (checked : forest.checkOperand binary child = .ok ()) (node : Handle)
      (same : child = some node) : forest.Fits operator binary .right node :=
    linked.fits_of_checkChild located isBinary (checkOperand_eq_ok_iff.mp checked node same)
      fun _ side => by cases side
  split at done
  next assign =>
    obtain ⟨_, checked, done⟩ := bind_eq_ok_iff.mp done
    obtain ⟨outcome, table, prepared⟩ := forest.assignedValue_eq child
    rw [prepared] at done
    obtain ⟨value, -, done⟩ := bind_eq_ok_iff.mp done
    cases done
    have moved := (linked.withTable table).link located isBinary
      fun node same => (fits checked node same).withTable table
    exact moved.store binary value
  next other =>
    obtain ⟨_, checked, done⟩ := bind_eq_ok_iff.mp done
    cases done
    exact linked.link located isBinary (fits checked)

/-- What is stored for an assignment makes no difference to the nodes. -/
theorem cells_of_setLeft {binary : Handle} {child : Option Handle} {forest' : Forest}
    (done : forest.setLeft binary child = .ok forest') :
    ∃ table, forest'.cells = (({ forest with table } : Forest).link binary .left child).cells := by
  obtain ⟨operator, -, done⟩ := bind_eq_ok_iff.mp done
  split at done
  next =>
    obtain ⟨_, -, done⟩ := bind_eq_ok_iff.mp done
    obtain ⟨_, -, done⟩ := bind_eq_ok_iff.mp done
    obtain ⟨right, -, done⟩ := bind_eq_ok_iff.mp done
    obtain ⟨outcome, table, prepared⟩ := forest.assignedValue_eq right
    rw [prepared] at done
    obtain ⟨value, -, done⟩ := bind_eq_ok_iff.mp done
    refine ⟨table, ?_⟩
    cases value with
    | none =>
        cases done
        rfl
    | some value =>
        cases done
        exact cells_store _ binary _
  next =>
    obtain ⟨_, -, done⟩ := bind_eq_ok_iff.mp done
    cases done
    exact ⟨forest.table, rfl⟩

theorem cells_of_setRight {binary : Handle} {child : Option Handle} {forest' : Forest}
    (done : forest.setRight binary child = .ok forest') :
    ∃ table, forest'.cells = (({ forest with table } : Forest).link binary .right child).cells := by
  obtain ⟨operator, -, done⟩ := bind_eq_ok_iff.mp done
  split at done
  next =>
    obtain ⟨_, -, done⟩ := bind_eq_ok_iff.mp done
    obtain ⟨outcome, table, prepared⟩ := forest.assignedValue_eq child
    rw [prepared] at done
    obtain ⟨value, -, done⟩ := bind_eq_ok_iff.mp done
    cases done
    exact ⟨table, cells_store _ binary value⟩
  next =>
    obtain ⟨_, -, done⟩ := bind_eq_ok_iff.mp done
    cases done
    exact ⟨forest.table, rfl⟩

/-! ### Changing groups -/

theorem members_eq_ok_iff {group : Handle} {members : List Handle} :
    forest.members group = .ok members ↔ forest.node? group = some (.group members) := by
  unfold Forest.members
  cases forest.node? group with
  | none => simp
  | some node => cases node <;> simp

theorem Linked.groupPush (linked : forest.Linked) {group child : Handle} {forest' : Forest}
    (done : forest.groupPush group child = .ok forest') : forest'.Linked := by
  obtain ⟨members, found, done⟩ := bind_eq_ok_iff.mp done
  obtain ⟨_, checked, done⟩ := bind_eq_ok_iff.mp done
  cases done
  obtain ⟨upper, lower, -, below, allowed, -⟩ := linked.checkChild_eq_ok_iff.mp checked
  have located := members_eq_ok_iff.mp found
  exact linked.adopt located below (Node.misplacement?_eq_none_iff.mp allowed).1

theorem Linked.groupRemove (linked : forest.Linked) {group child : Handle}
    {answer : Bool × Forest} (done : forest.groupRemove group child = .ok answer) :
    answer.2.Linked := by
  obtain ⟨members, found, done⟩ := bind_eq_ok_iff.mp done
  obtain ⟨parent, -, done⟩ := bind_eq_ok_iff.mp done
  split at done
  next =>
    cases done
    exact linked.detach child
  next =>
    cases done
    exact linked

theorem Linked.detachAll (linked : forest.Linked) (nodes : List Handle) :
    (nodes.foldl Forest.detach forest).Linked := by
  induction nodes generalizing forest with
  | nil => exact linked
  | cons node rest inductionHypothesis => exact inductionHypothesis (linked.detach node)

theorem Linked.detachMembers (linked : forest.Linked) (group : Handle) :
    (forest.detachMembers group).Linked := by
  unfold Forest.detachMembers
  split
  next members located => exact linked.detachAll members
  next => exact linked

theorem Linked.groupClear (linked : forest.Linked) {group : Handle} {forest' : Forest}
    (done : forest.groupClear group = .ok forest') : forest'.Linked := by
  obtain ⟨members, -, done⟩ := bind_eq_ok_iff.mp done
  cases done
  exact linked.detachMembers group

/-- A node that gets another parent is taken off its own, or it is moved by the operation for
the place that is free. -/
theorem setParent_cases {child : Handle} {parent : Option Handle} {forest' : Forest}
    (done : forest.setParent child parent = .ok forest') :
    parent = none ∧ forest' = forest.detach child ∨
    ∃ above, parent = some above ∧ (forest.groupPush above child = .ok forest' ∨
      forest.setLeft above (some child) = .ok forest' ∨
      forest.setRight above (some child) = .ok forest') := by
  obtain ⟨content, -, done⟩ := bind_eq_ok_iff.mp done
  dsimp only at done
  split at done
  next =>
    obtain ⟨_, refused, -⟩ := bind_eq_ok_iff.mp done
    cases refused
  next =>
    cases parent with
    | none =>
        cases done
        exact .inl ⟨rfl, rfl⟩
    | some parent =>
        refine .inr ⟨parent, rfl, ?_⟩
        obtain ⟨_, -, done⟩ := bind_eq_ok_iff.mp done
        obtain ⟨upper, -, done⟩ := bind_eq_ok_iff.mp done
        split at done
        next => exact .inl done
        next =>
          obtain ⟨operands, -, done⟩ := bind_eq_ok_iff.mp done
          split at done
          next => exact .inr (.inl done)
          next => exact .inr (.inr done)
          next => cases done

theorem Linked.setParent (linked : forest.Linked) {child : Handle} {parent : Option Handle}
    {forest' : Forest} (done : forest.setParent child parent = .ok forest') : forest'.Linked := by
  rcases setParent_cases done with ⟨-, rfl⟩ | ⟨above, -, pushed | setLeft | setRight⟩
  · exact linked.detach child
  · exact linked.groupPush pushed
  · exact linked.setLeft setLeft
  · exact linked.setRight setRight

theorem remove_eq_ok {node : Handle} {content : Node} (located : forest.node? node = some content) :
    forest.remove node = .ok (forest.removeTree node) :=
  bind_eq_ok_iff.mpr ⟨content, node_eq_ok_iff.mpr located, rfl⟩

theorem Linked.remove (linked : forest.Linked) {node : Handle} {forest' : Forest}
    (done : forest.remove node = .ok forest') : forest'.Linked := by
  obtain ⟨content, -, done⟩ := bind_eq_ok_iff.mp done
  cases done
  exact linked.removeTree node

/-! ### Grafting -/

theorem Linked.addVariable (linked : forest.Linked) {name : String} {value : Option Number}
    {made : Handle × Forest} (done : forest.addVariable name value = .ok made) :
    made.2.Linked := by
  obtain ⟨settled, -, done⟩ := bind_eq_ok_iff.mp done
  cases done
  exact (linked.withTable _).allocate rfl

theorem Linked.graft (linked : forest.Linked) (expr : Expr) : (forest.graft expr).2.Linked := by
  induction expr generalizing forest with
  | number value => exact linked.allocate rfl
  | «variable» name =>
      rw [Forest.graft]
      split
      next => exact linked
      next done => exact linked.addVariable done
  | binary operator left right leftHypothesis rightHypothesis =>
      rw [Forest.graft]
      have first := leftHypothesis linked
      split
      next failed => exact failed ▸ first
      next node middle grafted =>
        rw [grafted] at first
        have second := rightHypothesis first
        split
        next failed =>
          rw [failed] at second
          exact second.removeTree node
        next other last graftedToo =>
          rw [graftedToo] at second
          have joined := second.addBinary operator (some node) (some other)
          split
          next failed =>
            rw [failed] at joined
            exact (joined.removeTree node).removeTree other
          next => exact joined

end Forest

end Worksheet
