import Worksheet.Proofs.Expr.Evaluation

/-!
# Grafting expressions

Grafting makes new nodes and leaves the old ones alone.  The new tree is that of the
expression, and the variables are those after the expression has been entered.
-/

namespace Worksheet

namespace Forest

variable {forest forest' : Forest}

/-! ### Leaving nodes alone -/

/-- Every node of the first forest is the same in the second one. -/
def Extends (forest forest' : Forest) : Prop :=
  ∀ node content, forest.node? node = some content →
    forest'.node? node = some content ∧ forest'.parent? node = forest.parent? node

theorem Extends.trans {forest'' : Forest} (first : forest.Extends forest')
    (second : forest'.Extends forest'') : forest.Extends forest'' := by
  intro node content located
  obtain ⟨located', above'⟩ := first node content located
  obtain ⟨located'', above''⟩ := second node content located'
  exact ⟨located'', above''.trans above'⟩

theorem Linked.live_of_below (linked : forest.Linked) {low high : Handle} {content : Node}
    (located : forest.node? high = some content) (below : forest.Below low high) :
    ∃ content, forest.node? low = some content := by
  rcases below.cases_head with rfl | ⟨next, up, -⟩
  · exact ⟨content, located⟩
  · exact node?_of_parent? (linked.parent?_of_child low next up)

theorem Linked.tree_of_extends (linked : forest.Linked) (kept : forest.Extends forest')
    {node : Handle} {content : Node} (located : forest.node? node = some content) :
    forest'.tree node = forest.tree node := by
  apply linked.tree_congr
  intro low below
  obtain ⟨lower, found⟩ := linked.live_of_below located below
  rw [found, (kept low lower found).1]

theorem Linked.live_of_expr? (linked : forest.Linked) {node : Handle} {expr : Expr}
    (found : (forest.tree node).expr? = some expr) :
    ∃ content, forest.node? node = some content ∧ content.isGroup = false := by
  rw [linked.tree_eq] at found
  cases located : forest.node? node with
  | none =>
      rw [located] at found
      cases found
  | some content =>
      refine ⟨content, rfl, ?_⟩
      cases content with
      | group members =>
          rw [located] at found
          cases found
      | _ => rfl

theorem Linked.not_below_of_fresh (linked : forest.Linked) (linked' : forest'.Linked)
    (kept : forest.Extends forest') {low high : Handle} {content : Node}
    (located : forest.node? low = some content) (fresh : forest.node? high = none) :
    ¬forest'.Below low high := by
  intro below
  induction below using Relation.ReflTransGen.head_induction_on generalizing content with
  | refl =>
      rw [fresh] at located
      cases located
  | @head low next up _ inductionHypothesis =>
      have above := linked'.parent?_of_child low next up
      rw [(kept low content located).2] at above
      obtain ⟨node, found, -⟩ := linked.count_of_parent? low next above
      exact inductionHypothesis found

/-! ### Removing what is new -/

theorem table_removeTree_of_root {node : Handle} (root : forest.parent? node = none) :
    (forest.removeTree node).table = forest.table := by
  rw [removeTree, detach_of_root root, table_releaseAll]

theorem Linked.node?_removeTree_of_root (linked : forest.Linked) {node : Handle}
    (root : forest.parent? node = none) {other : Handle} (apart : ¬forest.Below other node) :
    (forest.removeTree node).node? other = forest.node? other ∧
      (forest.removeTree node).parent? other = forest.parent? other := by
  have outside : other ∉ forest.sweep node := mt linked.mem_sweep.mp apart
  rw [Forest.removeTree, detach_of_root root, node?_releaseAll, parent?_releaseAll,
    if_neg outside, if_neg outside]
  exact ⟨rfl, rfl⟩

theorem parent?_removeTree_of_root {node other : Handle} (root : forest.parent? node = none)
    (alone : forest.parent? other = none) : (forest.removeTree node).parent? other = none := by
  rw [removeTree, detach_of_root root, parent?_releaseAll, alone, ite_self]

theorem Linked.extends_removeTree (linked : forest.Linked) (linked' : forest'.Linked)
    (kept : forest.Extends forest') {node : Handle} (fresh : forest.node? node = none)
    (root : forest'.parent? node = none) : forest.Extends (forest'.removeTree node) := by
  intro other content located
  have apart := linked.not_below_of_fresh linked' kept located fresh
  obtain ⟨same, above⟩ := linked'.node?_removeTree_of_root root apart
  rw [same, above]
  exact kept other content located

/-! ### Joining two trees -/

/-- A node that can be an operand of any operator. -/
structure Loose (forest : Forest) (node : Handle) : Prop where
  root : forest.parent? node = none
  content : ∃ content, forest.node? node = some content ∧ content.isGroup = false ∧
    content.isAssignment = false

/-- The second forest has one node more than the first, above two nodes of it. -/
structure Joins (forest : Forest) (operator : Operator) (first second node : Handle)
    (forest' : Forest) : Prop where
  fresh : forest.node? node = none
  node? : ∀ other, forest'.node? other =
    if other = node then some (.binary operator (some first) (some second))
    else forest.node? other
  parent? : ∀ other, forest'.parent? other =
    if other = second then some node
    else if other = first then some node
    else forest.parent? other

section Joining

variable {operator : Operator} {first second : Handle}

theorem table_place (forest : Forest) (binary : Handle) (side : Side) (child : Option Handle) :
    (forest.place binary side child).table = forest.table := by
  have orphaned (operand : Option Handle) : (forest.orphan operand).table = forest.table := by
    cases operand <;> rfl
  cases child with
  | none => exact orphaned _
  | some node => exact orphaned _

theorem link_of_free {binary child : Handle} (side : Side) {content lower : Node}
    (located : forest.node? binary = some content) (free : content.operand? side = none)
    (found : forest.node? child = some lower) (root : forest.parent? child = none) :
    (∀ other, (forest.link binary side (some child)).node? other =
      if other = binary then some (content.withOperand side (some child))
      else forest.node? other) ∧
    (∀ other, (forest.link binary side (some child)).parent? other =
      if other = child then some binary else forest.parent? other) ∧
    (forest.link binary side (some child)).table = forest.table := by
  have placed : forest.link binary side (some child) =
      forest.place binary side (some child) := by
    rw [link, if_neg, detach_of_root root]
    rintro ⟨above, -⟩
    rw [root] at above
    cases above
  have empty : forest.operand? binary side = none := by
    rw [operand?, located]
    exact free
  rw [placed]
  refine ⟨fun other => ?_, fun other => ?_, table_place forest binary side (some child)⟩
  · rw [node?_place, located]
    rfl
  · rw [parent?_place_some found, empty]
    simp

theorem Linked.checkChild_allocate (linked : forest.Linked) (loose : forest.Loose first) :
    (forest.allocate (.binary operator none none)).2.checkChild
      (forest.allocate (.binary operator none none)).1 first = .ok () := by
  have leaf : (Node.binary operator none none).children = [] := rfl
  have fresh := node?_allocate_handle linked.formed (.binary operator none none)
  obtain ⟨content, located, single, other⟩ := loose.content
  have made := linked.allocate leaf
  apply made.checkChild_eq_ok_iff.mpr
  refine ⟨.binary operator none none, content, ?_, ?_, ?_, ?_⟩
  · exact node?_allocate_self linked.formed _
  · exact node?_allocate_of_live linked.formed _ located
  · rw [Node.misplacement?_eq_none_iff, single, other]
    simp [Node.isTerminal]
  · intro below
    have root : (forest.allocate (.binary operator none none)).2.parent?
        (forest.allocate (.binary operator none none)).1 = none := by
      rw [parent?_allocate linked.formed, parent?_of_dead fresh]
    have same := made.eq_of_below_of_root below root
    rw [← same, fresh] at located
    cases located

theorem Linked.joins_link (linked : forest.Linked) (operator : Operator)
    (loose : forest.Loose first) (loose' : forest.Loose second) (different : first ≠ second) :
    let node := (forest.allocate (.binary operator none none)).1
    let made := (forest.allocate (.binary operator none none)).2
    let joined := (made.link node .left (some first)).link node .right (some second)
    forest.Joins operator first second node joined ∧ joined.table = forest.table := by
  intro node made joined
  have fresh : forest.node? node = none := node?_allocate_handle linked.formed _
  have located (other : Handle) : made.node? other =
      if other = node then some (.binary operator none none) else forest.node? other :=
    node?_allocate linked.formed _ other
  have above (other : Handle) : made.parent? other = forest.parent? other :=
    parent?_allocate linked.formed _ other
  obtain ⟨low, lowLocated, -⟩ := loose.content
  obtain ⟨high, highLocated, -⟩ := loose'.content
  have apart := ne_of_fresh lowLocated fresh
  have apart' := ne_of_fresh highLocated fresh
  -- The left operand goes first, to a node that has none yet.
  let once := made.link node .left (some first)
  obtain ⟨onceNode, onceParent, onceTable⟩ := link_of_free .left
    ((located node).trans (if_pos rfl)) rfl
    ((located first).trans ((if_neg apart).trans lowLocated)) ((above first).trans loose.root)
  -- Then the right one, which has not moved.
  have highFound : once.node? second = some high := by
    rw [onceNode, if_neg apart', located, if_neg apart', highLocated]
  have highRoot : once.parent? second = none := by
    rw [onceParent, if_neg different.symm, above, loose'.root]
  obtain ⟨twiceNode, twiceParent, twiceTable⟩ := link_of_free .right
    ((onceNode node).trans (if_pos rfl)) rfl highFound highRoot
  refine ⟨⟨fresh, fun other => ?_, fun other => ?_⟩, twiceTable.trans onceTable⟩
  · rw [twiceNode, onceNode, located]
    split <;> rfl
  · rw [twiceParent, onceParent, above]

theorem Joins.store {forest' : Forest} {node : Handle} (loose : forest.Loose first)
    (joins : forest.Joins .assign first second node forest') (value : Option Number) :
    forest.Joins .assign first second node (forest'.store node value) ∧
      (forest'.store node value).table =
        (forest.name? first).elim forest'.table fun name => forest'.table.put name value := by
  obtain ⟨content, located, -⟩ := loose.content
  refine ⟨⟨joins.fresh, fun other => ?_, fun other => ?_⟩, ?_⟩
  · rw [node?_store, joins.node?]
  · rw [parent?_store, joins.parent?]
  · have target : forest'.target? node = forest.name? first := by
      rw [target?, joins.node?, if_pos rfl]
      dsimp only
      rw [name?, name?, joins.node?, if_neg (ne_of_fresh located joins.fresh)]
    rw [Forest.store, target]
    cases forest.name? first with
    | none => rfl
    | some name => rfl

theorem Linked.joins_linkBoth (linked : forest.Linked) (loose : forest.Loose first)
    (loose' : forest.Loose second) (different : first ≠ second) (value : Option Number) :
    let node := (forest.allocate (.binary operator none none)).1
    let made := (forest.allocate (.binary operator none none)).2
    let joined := made.linkBoth operator node (some first) (some second) value
    forest.Joins operator first second node joined ∧
      joined.table = if operator = .assign then
        (forest.name? first).elim forest.table fun name => forest.table.put name value
      else forest.table := by
  intro node made joined
  have ⟨joins, table⟩ := linked.joins_link operator loose loose' different
  by_cases assign : operator = .assign
  · subst assign
    obtain ⟨stored, value⟩ := joins.store loose value
    rw [table] at value
    exact ⟨stored, value⟩
  · have same : joined = (made.link node .left (some first)).link node .right (some second) :=
      if_neg assign
    rw [same, if_neg assign]
    exact ⟨joins, table⟩

theorem Linked.addBinary_of_loose (linked : forest.Linked) (loose : forest.Loose first)
    (loose' : forest.Loose second) (different : first ≠ second) {value : Option Number}
    (prepared : forest.prepare operator (some first) (some second) = (.ok value, forest)) :
    ∃ node forest', forest.addBinary operator (some first) (some second) = (.ok node, forest') ∧
      forest.Joins operator first second node forest' ∧
      forest'.table = if operator = .assign then
        (forest.name? first).elim forest.table fun name => forest.table.put name value
      else forest.table := by
  refine ⟨_, _, ?_, linked.joins_linkBoth loose loose' different value⟩
  have twice : ¬((some first).isSome && some first = some second) = true := by
    simpa using different
  rw [Forest.addBinary, if_neg twice, prepared]
  dsimp only [checkOperand]
  rw [linked.checkChild_allocate loose, linked.checkChild_allocate loose']
  rfl

theorem Joins.expr? {forest' : Forest} {node : Handle} (linked : forest.Linked)
    (linked' : forest'.Linked) (joins : forest.Joins operator first second node forest')
    {left right : Expr} (leftFound : (forest.tree first).expr? = some left)
    (rightFound : (forest.tree second).expr? = some right) :
    (forest'.tree node).expr? = some (.binary operator left right) := by
  have same (child : Handle) {expr : Expr} (found : (forest.tree child).expr? = some expr) :
      forest'.tree child = forest.tree child := by
    obtain ⟨content, located, -⟩ := linked.live_of_expr? found
    apply linked.tree_congr
    intro low below
    obtain ⟨lower, lowLocated⟩ := linked.live_of_below located below
    rw [joins.node?, if_neg (ne_of_fresh lowLocated joins.fresh)]
  rw [linked'.tree_eq, joins.node?, if_pos rfl]
  apply Tree.expr?_binary_eq_some_iff.mpr
  refine ⟨left, right, ?_, ?_, rfl⟩
  · rw [← leftFound]
    exact congrArg Tree.expr? (same first leftFound)
  · rw [← rightFound]
    exact congrArg Tree.expr? (same second rightFound)

end Joining

/-! ### Grafting -/

/-- The second forest has the tree of an expression more than the first, and it stands
alone. -/
structure Grafted (forest : Forest) (expr : Expr) (node : Handle) (forest' : Forest) : Prop where
  linked : forest'.Linked
  kept : forest.Extends forest'
  fresh : forest.node? node = none
  root : forest'.parent? node = none
  expr? : (forest'.tree node).expr? = some expr

theorem Linked.extends_allocate (linked : forest.Linked) (node : Node) :
    forest.Extends (forest.allocate node).2 := by
  intro other content located
  exact ⟨node?_allocate_of_live linked.formed node located,
    parent?_allocate linked.formed node other⟩

theorem Linked.grafted_allocate (linked : forest.Linked) {node : Node} (leaf : node.children = [])
    {expr : Expr} (found : ∀ id read, (Tree.ofNode id read (some node)).expr? = some expr) :
    forest.Grafted expr (forest.allocate node).1 (forest.allocate node).2 := by
  have fresh := node?_allocate_handle linked.formed node
  have made := linked.allocate leaf
  refine ⟨made, linked.extends_allocate node, fresh, ?_, ?_⟩
  · rw [parent?_allocate linked.formed, parent?_of_dead fresh]
  · rw [made.tree_eq, node?_allocate_self linked.formed]
    exact found _ _

theorem Grafted.loose {forest' : Forest} {expr : Expr} {node : Handle}
    (grafted : forest.Grafted expr node forest') (plain : expr.isPlain = true) :
    forest'.Loose node := by
  have linked := grafted.linked
  have found := grafted.expr?
  obtain ⟨content, located, single⟩ := linked.live_of_expr? found
  refine ⟨grafted.root, content, located, single, ?_⟩
  cases isAssignment : content.isAssignment with
  | false => rfl
  | true =>
      obtain ⟨left, right, rfl⟩ := Node.isAssignment_eq_true_iff.mp isAssignment
      obtain ⟨-, -, first, second, -, -, -, -, rfl⟩ := linked.operands_of_expr? located found
      cases plain

theorem Loose.mono {forest' : Forest} {node : Handle} (loose : forest.Loose node)
    (kept : forest.Extends forest') : forest'.Loose node := by
  obtain ⟨content, located, free⟩ := loose.content
  obtain ⟨located', above⟩ := kept node content located
  exact ⟨above.trans loose.root, content, located', free⟩

/-- Two grafted trees that are joined are one grafted tree. -/
theorem Grafted.join {middle last joined : Forest} {operator : Operator} {left right : Expr}
    {low high node : Handle} (first : forest.Grafted left low middle)
    (second : middle.Grafted right high last)
    (joins : last.Joins operator low high node joined) (linked : joined.Linked) :
    forest.Grafted (.binary operator left right) node joined := by
  have fresh {other : Handle} {content : Node} (located : forest.node? other = some content) :
      other ≠ low ∧ other ≠ high ∧ other ≠ node := by
    obtain ⟨located', -⟩ := first.kept other content located
    obtain ⟨located'', -⟩ := second.kept other content located'
    exact ⟨ne_of_fresh located first.fresh, ne_of_fresh located' second.fresh,
      ne_of_fresh located'' joins.fresh⟩
  obtain ⟨content, located, -⟩ := first.linked.live_of_expr? first.expr?
  obtain ⟨located', -⟩ := second.kept low content located
  obtain ⟨content', located'', -⟩ := second.linked.live_of_expr? second.expr?
  refine ⟨linked, ?_, ?_, ?_, ?_⟩
  · intro other content found
    obtain ⟨apart, apart', apart''⟩ := fresh found
    obtain ⟨found', above⟩ := first.kept.trans second.kept other content found
    rw [joins.node?, if_neg apart'', joins.parent?, if_neg apart', if_neg apart]
    exact ⟨found', above⟩
  · cases found : forest.node? node with
    | none => rfl
    | some content => exact absurd rfl (fresh found).2.2
  · have apart := ne_of_fresh located' joins.fresh
    have apart' := ne_of_fresh located'' joins.fresh
    rw [joins.parent?, if_neg apart'.symm, if_neg apart.symm, parent?_of_dead joins.fresh]
  · apply joins.expr? second.linked linked
    · rw [first.linked.tree_of_extends second.kept located]
      exact first.expr?
    · exact second.expr?

theorem Grafted.different {middle last : Forest} {left right : Expr} {low high : Handle}
    (first : forest.Grafted left low middle) (second : middle.Grafted right high last) :
    low ≠ high := by
  obtain ⟨content, located, -⟩ := first.linked.live_of_expr? first.expr?
  exact ne_of_fresh located second.fresh

theorem Linked.graft_variable (linked : forest.Linked) (name : String) :
    ∃ node forest', forest.graft (.variable name) = (.ok node, forest') ∧
      forest.Grafted (.variable name) node forest' ∧
      forest'.table = forest.table.declareAll [name] := by
  obtain ⟨settled, resolved⟩ := forest.table.resolve_none name
  let declared : Forest := { forest with table := forest.table.declare name }
  have made : declared.Grafted (.variable name) (declared.allocate (.variable name)).1
      (declared.allocate (.variable name)).2 :=
    (linked.withTable _).grafted_allocate rfl fun _ _ => rfl
  have grafted : forest.Grafted (.variable name) (declared.allocate (.variable name)).1
      (declared.allocate (.variable name)).2 :=
    ⟨made.linked, made.kept, made.fresh, made.root, made.expr?⟩
  refine ⟨_, _, ?_, grafted, rfl⟩
  rw [Forest.graft, Forest.addVariable, resolved]
  rfl

theorem Linked.graft_of_isPlain (linked : forest.Linked) {expr : Expr}
    (plain : expr.isPlain = true) :
    ∃ node forest', forest.graft expr = (.ok node, forest') ∧ forest.Grafted expr node forest' ∧
      forest'.table = forest.table.declareAll expr.names := by
  induction expr generalizing forest with
  | number value => exact ⟨_, _, rfl, linked.grafted_allocate rfl fun _ _ => rfl, rfl⟩
  | «variable» name => exact linked.graft_variable name
  | binary operator left right leftHypothesis rightHypothesis =>
      simp only [Expr.isPlain, Bool.and_eq_true, decide_eq_true_eq] at plain
      obtain ⟨low, middle, leftDone, first, leftTable⟩ := leftHypothesis linked plain.1.2
      obtain ⟨high, last, rightDone, second, rightTable⟩ :=
        rightHypothesis first.linked plain.2
      have prepared : last.prepare operator (some low) (some high) = (.ok none, last) :=
        if_neg plain.1.1
      obtain ⟨node, joined, done, joins, table⟩ := second.linked.addBinary_of_loose
        ((first.loose plain.1.2).mono second.kept) (second.loose plain.2)
        (first.different second) prepared
      have ending := second.linked.addBinary operator (some low) (some high)
      rw [done] at ending
      refine ⟨node, joined, ?_, first.join second joins ending, ?_⟩
      · rw [Forest.graft, leftDone]
        dsimp only
        rw [rightDone]
        dsimp only
        rw [done]
      · rw [table, if_neg plain.1.1, rightTable, leftTable, Expr.names,
          Variables.declareAll_append]

theorem trees_of_not_group {node : Handle} {content : Node}
    (located : forest.node? node = some content) (single : content.isGroup = false) :
    forest.trees node = [forest.tree node] := by
  rw [Forest.trees, located]
  cases content with
  | group members => cases single
  | _ => rfl

theorem Linked.trees_of_expr? (linked : forest.Linked) {node : Handle} {expr : Expr}
    (found : (forest.tree node).expr? = some expr) : forest.trees node = [forest.tree node] := by
  obtain ⟨content, located, single⟩ := linked.live_of_expr? found
  exact trees_of_not_group located single

/-- The value of a node that is no group is that of its tree. -/
theorem value_of_not_group {node : Handle} {content : Node}
    (located : forest.node? node = some content) (single : content.isGroup = false) :
    forest.value node = (((forest.tree node).evaluate forest.table).1,
      { forest with table := ((forest.tree node).evaluate forest.table).2 }) := by
  rw [Forest.value, located]
  cases content with
  | group members => cases single
  | _ => rfl

theorem Linked.value_of_expr? (linked : forest.Linked) {node : Handle} {expr : Expr}
    (found : (forest.tree node).expr? = some expr) :
    forest.value node = (((forest.tree node).evaluate forest.table).1,
      { forest with table := ((forest.tree node).evaluate forest.table).2 }) := by
  obtain ⟨content, located, single⟩ := linked.live_of_expr? found
  exact value_of_not_group located single

/-- The value of an expression node is that of its expression. -/
theorem Linked.tryValue_of_expr? (linked : forest.Linked) {node : Handle} {expr : Expr}
    (found : (forest.tree node).expr? = some expr) (plain : expr.isPlain = true) :
    forest.tryValue node = (expr.tryValue forest.table, forest) := by
  rw [Forest.tryValue, Forest.hasValue, linked.trees_of_expr? found, List.all_cons, List.all_nil,
    Bool.and_true, Tree.hasValue_of_expr? found plain, Expr.tryValue, linked.value_of_expr? found,
    Tree.evaluate_of_expr? found plain]
  split <;> rfl

theorem Linked.node?_of_expr?_variable (linked : forest.Linked) {node : Handle} {name : String}
    (found : (forest.tree node).expr? = some (.variable name)) :
    forest.node? node = some (.variable name) := by
  obtain ⟨content, located, -⟩ := linked.live_of_expr? found
  cases content with
  | constant value | group members =>
      rw [linked.tree_eq, located] at found
      cases found
  | binary operator left right =>
      obtain ⟨-, -, first, second, -, -, -, -, impossible⟩ :=
        linked.operands_of_expr? located found
      cases impossible
  | _ =>
      rw [linked.tree_eq, located] at found
      cases found
      exact located

theorem Linked.prepare_assignment (linked : forest.Linked) {target source : Handle}
    {name : String} {expr : Expr} (named : (forest.tree target).expr? = some (.variable name))
    (found : (forest.tree source).expr? = some expr) (plain : expr.isPlain = true) :
    forest.prepare .assign (some target) (some source) =
      (expr.tryValue forest.table, forest) := by
  have located := linked.node?_of_expr?_variable named
  have checked := checkTarget_eq_ok_iff.mpr ⟨name, located⟩
  rw [Forest.prepare, if_pos rfl, Option.elim_some, checked]
  exact linked.tryValue_of_expr? found plain

theorem Linked.graft_sides (linked : forest.Linked) (name : String) {source : Expr}
    (plain : source.isPlain = true) :
    ∃ low middle high last, forest.graft (.variable name) = (.ok low, middle) ∧
      middle.graft source = (.ok high, last) ∧
      forest.Grafted (.variable name) low middle ∧ middle.Grafted source high last ∧
      last.table = forest.table.declareAll (name :: source.names) ∧
      last.name? low = some name ∧ last.prepare .assign (some low) (some high) =
        (source.tryValue (forest.table.declareAll (name :: source.names)), last) := by
  obtain ⟨low, middle, leftDone, first, leftTable⟩ := linked.graft_variable name
  obtain ⟨high, last, rightDone, second, rightTable⟩ := first.linked.graft_of_isPlain plain
  have table : last.table = forest.table.declareAll (name :: source.names) := by
    rw [rightTable, leftTable, ← Variables.declareAll_append]
    rfl
  obtain ⟨content, located, -⟩ := first.linked.live_of_expr? first.expr?
  have named : (last.tree low).expr? = some (.variable name) := by
    rw [first.linked.tree_of_extends second.kept located]
    exact first.expr?
  have target : last.name? low = some name := by
    rw [name?, second.linked.node?_of_expr?_variable named]
  have prepared := second.linked.prepare_assignment named second.expr? plain
  rw [table] at prepared
  exact ⟨low, middle, high, last, leftDone, rightDone, first, second, table, target, prepared⟩

/-- An expression that can be entered is grafted, and its variables are those after it
has been entered. -/
theorem Linked.graft_of_entered (linked : forest.Linked) {expr : Expr}
    (lawful : expr.isLawful = true) {table : Variables}
    (entered : forest.table.entered expr = .ok table) :
    ∃ node forest', forest.graft expr = (.ok node, forest') ∧ forest.Grafted expr node forest' ∧
      forest'.table = table := by
  by_cases plain : expr.isPlain = true
  · rw [Variables.entered_of_isPlain plain] at entered
    cases entered
    exact linked.graft_of_isPlain plain
  · obtain ⟨name, source, rfl, free⟩ := Expr.assignment_of_isLawful lawful plain
    obtain ⟨low, middle, high, last, leftDone, rightDone, first, second, same, target, prepared⟩ :=
      linked.graft_sides name free
    rw [Variables.entered_assignment] at entered
    cases tried : source.tryValue (forest.table.declareAll (name :: source.names)) with
    | error fault =>
        rw [tried] at entered
        cases entered
    | ok value =>
        rw [tried] at entered prepared
        cases entered
        obtain ⟨node, joined, added, joins, table⟩ := second.linked.addBinary_of_loose
          ((first.loose rfl).mono second.kept) (second.loose free)
          (first.different second) prepared
        have ending := second.linked.addBinary .assign (some low) (some high)
        rw [added] at ending
        refine ⟨node, joined, ?_, first.join second joins ending, ?_⟩
        · rw [Forest.graft, leftDone]
          dsimp only
          rw [rightDone]
          dsimp only
          rw [added]
        · rw [table, if_pos rfl, target, same]
          rfl

/-- An expression that cannot be entered leaves nothing behind but its names. -/
theorem Linked.graft_of_refused (linked : forest.Linked) {expr : Expr}
    (lawful : expr.isLawful = true) {fault : Fault}
    (refused : forest.table.entered expr = .error fault) :
    ∃ forest', forest.graft expr = (.error fault, forest') ∧ forest'.Linked ∧
      forest.Extends forest' ∧ forest'.table = forest.table.declareAll expr.names := by
  by_cases plain : expr.isPlain = true
  · rw [Variables.entered_of_isPlain plain] at refused
    cases refused
  · obtain ⟨name, source, rfl, free⟩ := Expr.assignment_of_isLawful lawful plain
    obtain ⟨low, middle, high, last, leftDone, rightDone, first, second, same, -, prepared⟩ :=
      linked.graft_sides name free
    rw [Variables.entered_assignment] at refused
    cases tried : source.tryValue (forest.table.declareAll (name :: source.names)) with
    | ok value =>
        rw [tried] at refused
        cases refused
    | error other =>
        rw [tried] at refused prepared
        cases refused
        have different : ¬((some low).isSome && some low = some high) = true := by
          simpa using first.different second
        have lowRoot := ((first.loose rfl).mono second.kept).root
        have highFresh : forest.node? high = none := by
          cases found : forest.node? high with
          | none => rfl
          | some content =>
              cases second.fresh.symm.trans (first.kept high content found).1
        have once := linked.extends_removeTree second.linked
          (first.kept.trans second.kept) first.fresh lowRoot
        have onceLinked := second.linked.removeTree low
        refine ⟨(last.removeTree low).removeTree high, ?_, onceLinked.removeTree high, ?_, ?_⟩
        · rw [Forest.graft, leftDone]
          dsimp only
          rw [rightDone]
          dsimp only
          rw [Forest.addBinary, if_neg different, prepared]
        · exact linked.extends_removeTree onceLinked once highFresh
            (parent?_removeTree_of_root lowRoot second.root)
        · rw [table_removeTree_of_root (parent?_removeTree_of_root lowRoot second.root),
            table_removeTree_of_root lowRoot, same]
          rfl

end Forest

end Worksheet
