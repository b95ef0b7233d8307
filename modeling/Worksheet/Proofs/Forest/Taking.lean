import Worksheet.Proofs.Forest.Edits
import Worksheet.Proofs.Forest.Grafting

/-!
# Taking nodes away

An assignment that loses its right operand takes the value of its target away.  When nodes
are taken off their parents one after the other, this happens to the targets that are still
in their place when the operand goes, and to no other variable.
-/

namespace Worksheet

/-- The names that are lost are left without a value; all others are as before. -/
def Variables.Cleared (before after : Variables) (lost : String → Prop) : Prop :=
  ∀ name, (lost name → after.find? name = some none) ∧
    (¬lost name → after.find? name = before.find? name)

namespace Variables.Cleared

variable {before middle after : Variables} {lost lost' : String → Prop}

theorem of_none (none : ∀ name, ¬lost name) : before.Cleared before lost :=
  fun name => ⟨fun gone => absurd gone (none name), fun _ => rfl⟩

theorem congr (cleared : before.Cleared after lost) (same : ∀ name, lost name ↔ lost' name) :
    before.Cleared after lost' :=
  fun name => ⟨fun gone => (cleared name).1 ((same name).mpr gone),
    fun kept => (cleared name).2 fun gone => kept ((same name).mp gone)⟩

theorem trans (first : before.Cleared middle lost) (second : middle.Cleared after lost') :
    before.Cleared after fun name => lost name ∨ lost' name := by
  intro name
  constructor
  · intro gone
    by_cases later : lost' name
    · exact (second name).1 later
    · rw [(second name).2 later]
      exact (first name).1 (gone.resolve_right later)
  · intro kept
    rw [(second name).2 fun later => kept (.inr later), (first name).2 fun earlier =>
      kept (.inl earlier)]

theorem put (table : Variables) (name : String) :
    table.Cleared (table.put name none) (name = ·) := by
  intro other
  rw [find?_put]
  exact ⟨fun same => if_pos same.symm, fun different => if_neg (Ne.symm different)⟩

end Variables.Cleared

namespace Forest

variable {forest middle after : Forest} {node : Handle} {name : String} {nodes : List Handle}

/-- An assignment to the name, with both its operands. -/
def Assigns (forest : Forest) (assignment target source : Handle) (name : String) : Prop :=
  forest.node? assignment = some (.binary .assign (some target) (some source)) ∧
    forest.name? target = some name

/-- Taking the nodes away, in this order, an assignment to the name loses its right operand
before its target. -/
def Loses (forest : Forest) (taken : List Handle) (name : String) : Prop :=
  ∃ assignment target source, forest.Assigns assignment target source name ∧
    ∃ earlier later, taken = earlier ++ source :: later ∧ target ∉ earlier

theorem name?_eq_some_iff :
    forest.name? node = some name ↔ forest.node? node = some (.variable name) := by
  unfold name?
  cases forest.node? node with
  | none => simp
  | some content => cases content <;> simp

theorem target?_eq_some_iff :
    forest.target? node = some name ↔ ∃ target right,
      forest.node? node = some (.binary .assign (some target) right) ∧
      forest.name? target = some name := by
  unfold target?
  split
  next target right located => simp [located]
  next other =>
    constructor
    · intro found
      cases found
    · rintro ⟨target, right, located, -⟩
      exact absurd located (other target right)

theorem isAssigned_eq_true_iff {assignment : Handle} :
    forest.isAssigned assignment node = true ↔
      ∃ left, forest.node? assignment = some (.binary .assign left (some node)) := by
  unfold isAssigned
  split
  next left right located =>
    simp only [located, decide_eq_true_eq, Option.some.injEq, Node.binary.injEq, true_and]
    constructor
    · rintro rfl
      exact ⟨left, rfl, rfl⟩
    · rintro ⟨_, -, same⟩
      exact same
  next other =>
    constructor
    · intro found
      cases found
    · rintro ⟨left, located⟩
      exact absurd located (other left _)

theorem name?_of_bare
    (same : ∀ other, (after.node? other).map Node.bare = (forest.node? other).map Node.bare)
    (node : Handle) : after.name? node = forest.name? node := by
  apply Option.ext
  intro name
  rw [name?_eq_some_iff, name?_eq_some_iff]
  exact ⟨variable_of_bare (same node), variable_of_bare (same node).symm⟩

/-! ### One node -/

theorem Linked.left_ne_right (linked : forest.Linked) {binary left right : Handle}
    {operator : Operator}
    (located : forest.node? binary = some (.binary operator (some left) (some right))) :
    left ≠ right := by
  rintro rfl
  have down : forest.IsChild left binary := ⟨_, located, by simp [Node.children]⟩
  obtain ⟨content, found, once⟩ :=
    linked.count_of_parent? left binary (linked.parent?_of_child left binary down)
  cases located.symm.trans found
  simp [Node.children] at once

theorem store_none_table (forest : Forest) (assignment : Handle) :
    forest.table.Cleared (forest.store assignment none).table
      (forest.target? assignment = some ·) := by
  unfold store
  cases forest.target? assignment with
  | none => exact .of_none fun name => by simp
  | some name => exact (Variables.Cleared.put forest.table name).congr fun other => by simp

theorem Linked.cleared_detach (linked : forest.Linked) (node : Handle) :
    forest.table.Cleared (forest.detach node).table
      (fun name => ∃ assignment target, forest.Assigns assignment target node name) := by
  have above {assignment target : Handle} {name : String}
      (assigns : forest.Assigns assignment target node name) :
      forest.parent? node = some assignment :=
    linked.parent?_of_child node assignment ⟨_, assigns.1, by simp [Node.children]⟩
  cases parent : forest.parent? node with
  | none =>
      rw [detach_of_root parent]
      refine .of_none ?_
      rintro name ⟨assignment, target, assigns⟩
      cases parent.symm.trans (above assigns)
  | some upper =>
      have cells := cells_detach_of_parent? parent
      have table : ((forest.changeNode upper (·.without node)).setParentLink node none).table =
        forest.table := rfl
      rw [Forest.detach, parent]
      dsimp only
      generalize (forest.changeNode upper (·.without node)).setParentLink node none = detached
        at cells table ⊢
      have nodes (other : Handle) : detached.node? other = (forest.detach node).node? other := by
        rw [node?, ← cells, ← node?]
      have names (other : Handle) : detached.name? other = forest.name? other :=
        name?_of_bare (fun other => by rw [nodes, linked.bare_node?_detach]) other
      -- Only the source of an assignment takes a value away with it.
      by_cases assigned : forest.isAssigned upper node = true
      · obtain ⟨left, located⟩ := isAssigned_eq_true_iff.mp assigned
        have changed : detached.node? upper =
            some (.binary .assign (left.filter (· ≠ node)) none) := by
          rw [nodes, linked.node?_detach, located]
          simp [Node.without, Option.filter]
        rw [if_pos assigned, ← table]
        refine (store_none_table detached upper).congr fun name => ?_
        rw [target?_eq_some_iff]
        constructor
        · rintro ⟨target, right, found, named⟩
          rw [changed, Option.some.injEq, Node.binary.injEq, Option.filter_eq_some_iff] at found
          obtain ⟨-, ⟨rfl, -⟩, -⟩ := found
          exact ⟨upper, target, located, (names target).symm.trans named⟩
        · rintro ⟨assignment, target, found, named⟩
          cases parent.symm.trans (above ⟨found, named⟩)
          cases located.symm.trans found
          refine ⟨target, none, ?_, (names target).trans named⟩
          simp [changed, Option.filter, linked.left_ne_right located]
      · rw [if_neg assigned, table]
        refine .of_none ?_
        rintro name ⟨assignment, target, found, named⟩
        cases parent.symm.trans (above ⟨found, named⟩)
        exact assigned (isAssigned_eq_true_iff.mpr ⟨_, found⟩)

/-! ### Several nodes -/

/-- What the forest shows after the nodes have been taken away and hung up elsewhere, as far
as assignments are concerned that had a right operand. -/
structure Taken (forest : Forest) (taken : List Handle) (after : Forest) : Prop where
  cleared : forest.table.Cleared after.table (forest.Loses taken)
  bare : ∀ node, (after.node? node).map Node.bare = (forest.node? node).map Node.bare
  full : ∀ assignment left source,
    forest.node? assignment = some (.binary .assign left (some source)) →
    after.node? assignment = some (.binary .assign (left.filter (· ∉ taken))
      ((some source).filter (· ∉ taken)))
  vacant : ∀ assignment left, forest.node? assignment = some (.binary .assign left none) →
    ∃ left', after.node? assignment = some (.binary .assign left' none)

theorem taken_nil (forest : Forest) : forest.Taken [] forest where
  cleared := by
    refine .of_none ?_
    rintro name ⟨_, _, _, -, earlier, later, split, -⟩
    simp at split
  bare _ := rfl
  full assignment left source located := by
    rw [located]
    cases left <;> rfl
  vacant _ left located := ⟨left, located⟩

theorem filter_notMem_append (operand : Option Handle) (nodes : List Handle) (node : Handle) :
    (operand.filter (· ∉ nodes)).filter (· ≠ node) = operand.filter (· ∉ nodes ++ [node]) := by
  rw [Option.filter_filter]
  congr 1
  funext other
  simp [Bool.and_comm]

theorem Taken.loses_append_iff (taken : forest.Taken nodes middle) :
    forest.Loses (nodes ++ [node]) name ↔
      forest.Loses nodes name ∨
        ∃ assignment target, middle.Assigns assignment target node name := by
  have names := name?_of_bare taken.bare
  constructor
  · rintro ⟨assignment, target, source, ⟨located, named⟩, earlier, later, split, stays⟩
    rcases List.eq_nil_or_concat later with rfl | ⟨rest, last, rfl⟩
    · obtain ⟨rfl, same⟩ := List.append_inj' split rfl
      cases same
      by_cases before : node ∈ nodes
      · obtain ⟨earlier, later, rfl⟩ := List.append_of_mem before
        exact .inl ⟨assignment, target, node, ⟨located, named⟩, earlier, later, rfl,
          fun member => stays (List.mem_append_left _ member)⟩
      · refine .inr ⟨assignment, target, ?_, (names target).trans named⟩
        rw [taken.full assignment _ node located]
        simp [Option.filter, stays, before]
    · rw [List.concat_eq_append, ← List.cons_append, ← List.append_assoc] at split
      obtain ⟨rfl, -⟩ := List.append_inj' split rfl
      exact .inl ⟨assignment, target, source, ⟨located, named⟩, earlier, rest, rfl, stays⟩
  · rintro (⟨assignment, target, source, assigns, earlier, later, rfl, stays⟩ |
      ⟨assignment, target, located, named⟩)
    · exact ⟨assignment, target, source, assigns, earlier, later ++ [node], by simp, stays⟩
    · obtain ⟨left, right, before⟩ := exists_assignment_of_bare (taken.bare assignment) located
      cases right with
      | none =>
          obtain ⟨_, changed⟩ := taken.vacant assignment left before
          cases located.symm.trans changed
      | some source =>
          have changed := taken.full assignment left source before
          rw [located, Option.some.injEq, Node.binary.injEq] at changed
          obtain ⟨-, first, second⟩ := changed
          obtain ⟨rfl, kept⟩ := Option.filter_eq_some_iff.mp first.symm
          obtain ⟨same, -⟩ := Option.filter_eq_some_iff.mp second.symm
          cases same
          exact ⟨assignment, target, node, ⟨before, (names target).symm.trans named⟩, nodes, [],
            rfl, by simpa using kept⟩

theorem Taken.detach (taken : forest.Taken nodes middle) (linked : middle.Linked)
    (node : Handle) : forest.Taken (nodes ++ [node]) (middle.detach node) where
  cleared := (taken.cleared.trans (linked.cleared_detach node)).congr
    fun _ => taken.loses_append_iff.symm
  bare other := (linked.bare_node?_detach node other).trans (taken.bare other)
  full assignment left source located := by
    rw [linked.node?_detach, taken.full assignment left source located, Option.map_some,
      Node.without, filter_notMem_append, filter_notMem_append]
  vacant assignment left located := by
    obtain ⟨left', found⟩ := taken.vacant assignment left located
    exact ⟨_, by rw [linked.node?_detach, found]; rfl⟩

theorem Taken.hang (taken : forest.Taken nodes middle) (upper : Handle)
    (table : after.table = middle.table)
    (bare : ∀ other, (after.node? other).map Node.bare = (middle.node? other).map Node.bare)
    (elsewhere : ∀ other, other ≠ upper → after.node? other = middle.node? other)
    (vacant : ∀ left right, forest.node? upper = some (.binary .assign left right) →
      right = none ∧ ∃ left', after.node? upper = some (.binary .assign left' none)) :
    forest.Taken nodes after where
  cleared := table ▸ taken.cleared
  bare other := (bare other).trans (taken.bare other)
  full assignment left source located := by
    rw [elsewhere, taken.full assignment left source located]
    rintro rfl
    cases (vacant left (some source) located).1
  vacant assignment left located := by
    by_cases here : assignment = upper
    · subst here
      exact (vacant left none located).2
    · rw [elsewhere assignment here]
      exact taken.vacant assignment left located

theorem Taken.adopt (taken : forest.Taken nodes middle) (linked : middle.Linked) {group : Handle}
    {members : List Handle} (located : forest.node? group = some (.group members))
    (child : Handle) : forest.Taken (nodes ++ [child]) (middle.adopt group child) := by
  refine (taken.detach linked child).hang group rfl (fun other => ?_)
    (fun other different => ?_) fun left right binary => ?_
  · rw [linked.bare_node?_adopt, linked.bare_node?_detach]
  · rw [Forest.adopt, node?_setParentLink, node?_changeNode, if_neg different]
  · cases located.symm.trans binary

theorem Taken.detachAll (taken : forest.Taken nodes middle) (linked : middle.Linked)
    (more : List Handle) : forest.Taken (nodes ++ more) (more.foldl Forest.detach middle) := by
  induction more generalizing nodes middle with
  | nil => rwa [List.append_nil]
  | cons node rest inductionHypothesis =>
      rw [List.append_cons, List.foldl_cons]
      exact inductionHypothesis (taken.detach linked node) (linked.detach node)

/-- The members of a group are taken away in the order in which they are listed. -/
theorem Taken.adoptAll (taken : forest.Taken nodes middle) (linked : middle.Linked)
    {group : Handle} {before : List Handle} (located : forest.node? group = some (.group before))
    {members : List Handle}
    (found : ∀ member ∈ members, ∃ content,
      middle.node? member = some content ∧ content.isGroup = false) :
    forest.Taken (nodes ++ members)
      (members.foldl (fun forest member => forest.adopt group member) middle) := by
  induction members generalizing nodes middle with
  | nil => rwa [List.append_nil]
  | cons member rest inductionHypothesis =>
      obtain ⟨content, here, single⟩ := found member List.mem_cons_self
      obtain ⟨members, located'⟩ := exists_group_of_bare (taken.bare group).symm located
      rw [List.append_cons, List.foldl_cons]
      refine inductionHypothesis (taken.adopt linked located member)
        (linked.adopt located' here single) fun other later => ?_
      exact linked.single_adopt group member (found other (List.mem_cons_of_mem member later))

/-! ### What it has cost -/

/-- What the nodes that were taken away have cost: the targets that lost their value for it
are known, and so are the assignments without their right operand. -/
structure Spends (forest : Forest) (taken : List Handle) (after : Forest) : Prop where
  cleared : forest.table.Cleared after.table (forest.Loses taken)
  lost : ∀ assignment left source,
    forest.node? assignment = some (.binary .assign left (some source)) → source ∈ taken →
    ∃ left', after.node? assignment = some (.binary .assign left' none)

theorem Taken.spends (taken : forest.Taken nodes after) : forest.Spends nodes after where
  cleared := taken.cleared
  lost assignment left source located member := by
    rw [taken.full assignment left source located]
    exact ⟨left.filter (· ∉ nodes), by simp [Option.filter, member]⟩

theorem spends_nil (table : after.table = forest.table) : forest.Spends [] after where
  cleared := table ▸ (taken_nil forest).cleared
  lost _ _ _ _ member := absurd member List.not_mem_nil

theorem Spends.place (spends : forest.Spends nodes middle) {binary : Handle} {side : Side}
    {child : Option Handle}
    (displaced : side = .right → ∀ left source,
      forest.node? binary = some (.binary .assign left (some source)) → source ∉ nodes) :
    forest.Spends nodes (middle.place binary side child) where
  cleared := by
    rw [table_place]
    exact spends.cleared
  lost assignment left source located member := by
    obtain ⟨left', found⟩ := spends.lost assignment left source located member
    rw [node?_place]
    split
    next same =>
      subst same
      cases side with
      | left => exact ⟨child, by rw [found]; rfl⟩
      | right => exact absurd member (displaced rfl left source located)
    next => exact ⟨left', found⟩

theorem Linked.assigns_allocate_iff (linked : forest.Linked) {content : Node}
    (leaf : content.children = []) {assignment target source : Handle} :
    (forest.allocate content).2.Assigns assignment target source name ↔
      forest.Assigns assignment target source name := by
  have old {other : Handle} {before : Node} (located : forest.node? other = some before) :=
    node?_allocate_of_live linked.formed content located
  constructor
  · rintro ⟨located, named⟩
    have before : forest.node? assignment = some (.binary .assign (some target) (some source)) := by
      rw [node?_allocate linked.formed] at located
      split at located
      next =>
        cases located
        cases leaf
      next => exact located
    obtain ⟨name', found⟩ := linked.assignment_target assignment target _ before
    cases (old found).symm.trans (name?_eq_some_iff.mp named)
    exact ⟨before, name?_eq_some_iff.mpr found⟩
  · rintro ⟨located, named⟩
    exact ⟨old located, name?_eq_some_iff.mpr (old (name?_eq_some_iff.mp named))⟩

theorem Linked.spends_of_allocate (linked : forest.Linked) {content : Node}
    (leaf : content.children = []) (spends : (forest.allocate content).2.Spends nodes after) :
    forest.Spends nodes after where
  cleared := by
    refine spends.cleared.congr fun name => ?_
    simp only [Loses, linked.assigns_allocate_iff leaf]
  lost assignment left source located member := by
    have located := node?_allocate_of_live linked.formed content located
    exact spends.lost assignment left source located member

end Forest

end Worksheet
