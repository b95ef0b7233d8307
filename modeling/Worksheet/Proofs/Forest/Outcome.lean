import Worksheet.Proofs.Forest.Grafting

/-!
# Outcomes of a graft

Whatever the expression is, a graft either ends with its tree and nothing else, or all
nodes are as they were.
-/

namespace Worksheet

namespace Forest

variable {forest forest' : Forest}

/-- All nodes are the same. -/
def Same (forest forest' : Forest) : Prop :=
  ∀ node, forest'.node? node = forest.node? node ∧ forest'.parent? node = forest.parent? node

theorem Same.extends (same : forest.Same forest') : forest.Extends forest' := by
  intro node content located
  rw [(same node).1]
  exact ⟨located, (same node).2⟩

theorem Same.isLive_iff (same : forest.Same forest') {node : Handle} :
    forest'.isLive node = true ↔ forest.isLive node = true := by
  rw [Forest.isLive_iff, Forest.isLive_iff, (same node).1]

/-- An extension without new nodes is the same. -/
theorem Extends.same (kept : forest.Extends forest')
    (known : ∀ node, forest'.isLive node = true → forest.isLive node = true) :
    forest.Same forest' := by
  intro node
  cases located : forest.node? node with
  | some content =>
      obtain ⟨located', above⟩ := kept node content located
      exact ⟨located', above⟩
  | none =>
      have dead : forest'.node? node = none := by
        by_contra found
        obtain ⟨content, found⟩ := Option.ne_none_iff_exists'.mp found
        obtain ⟨content', found'⟩ := isLive_iff.mp (known node (isLive_iff.mpr ⟨content, found⟩))
        cases located.symm.trans found'
      exact ⟨dead, by rw [parent?_of_dead dead, parent?_of_dead located]⟩

theorem Below.mono {low high : Handle} (below : forest.Below low high)
    (kept : ∀ node content, forest.node? node = some content →
      forest'.node? node = some content) : forest'.Below low high := by
  apply Relation.ReflTransGen.mono _ low high below
  rintro child parent ⟨content, located, member⟩
  exact ⟨content, kept parent content located, member⟩

/-! ### Removing a tree that stands alone -/

theorem Linked.isLive_removeTree_of_root (linked : forest.Linked) {node other : Handle}
    (root : forest.parent? node = none) :
    (forest.removeTree node).isLive other = true ↔
      forest.isLive other = true ∧ ¬forest.Below other node := by
  have swept : other ∈ forest.sweep node ↔ forest.Below other node := linked.mem_sweep
  rw [isLive_iff, isLive_iff, Forest.removeTree, detach_of_root root, ← swept]
  simp only [node?_releaseAll_eq_some_iff, exists_and_left]
  exact and_comm

theorem Linked.below_removeTree_of_root (linked : forest.Linked) {node low high : Handle}
    (root : forest.parent? node = none) (apart : ¬forest.Below low node)
    (below : forest.Below low high) : (forest.removeTree node).Below low high := by
  rw [Forest.removeTree, detach_of_root root]
  induction below using Relation.ReflTransGen.head_induction_on with
  | refl => exact .refl
  | @head low next up rest inductionHypothesis =>
      have apart' : ¬forest.Below next node := fun below => apart (.head up below)
      refine .head (isChild_releaseAll_iff.mpr ⟨?_, up⟩) (inductionHypothesis apart')
      exact fun swept => apart' (linked.mem_sweep.mp swept)

/-! ### Joining two trees -/

section Joining

variable {operator : Operator} {first second : Handle}

theorem Linked.loose_of_checkChild (linked : forest.Linked) (root : forest.parent? first = none)
    (checked : (forest.allocate (.binary operator none none)).2.checkChild
      (forest.allocate (.binary operator none none)).1 first = .ok ()) :
    forest.Loose first := by
  have made : (forest.allocate (.binary operator none none)).2.Linked := linked.allocate rfl
  obtain ⟨upper, lower, located, found, allowed, apart⟩ := made.checkChild_eq_ok_iff.mp checked
  have different : first ≠ (forest.allocate (.binary operator none none)).1 := by
    rintro same
    exact apart (same ▸ .refl)
  rw [node?_allocate_self linked.formed] at located
  rw [node?_allocate linked.formed, if_neg different] at found
  cases located
  obtain ⟨single, -, topmost⟩ := Node.misplacement?_eq_none_iff.mp allowed
  refine ⟨root, lower, found, single, ?_⟩
  cases isAssignment : lower.isAssignment with
  | false => rfl
  | true => cases topmost isAssignment

theorem Linked.same_release_allocate (linked : forest.Linked) (node : Node) :
    forest.Same ((forest.allocate node).2.release (forest.allocate node).1) := by
  intro other
  have dead := node?_allocate_handle linked.formed node
  change ([(forest.allocate node).1].foldl release (forest.allocate node).2).node? other = _ ∧
    ([(forest.allocate node).1].foldl release (forest.allocate node).2).parent? other = _
  rw [node?_releaseAll, parent?_releaseAll, node?_allocate linked.formed,
    parent?_allocate linked.formed]
  by_cases same : other = (forest.allocate node).1
  · simp [same, dead, parent?_of_dead dead]
  · simp [same]

/-- Two trees that stand alone are joined, or all nodes stay as they are. -/
theorem Linked.addBinary_cases (linked : forest.Linked) (operator : Operator)
    (root : forest.parent? first = none) (root' : forest.parent? second = none)
    (different : first ≠ second) :
    (∃ node joined, forest.addBinary operator (some first) (some second) = (.ok node, joined) ∧
      forest.Joins operator first second node joined) ∨
    ∃ fault refused, forest.addBinary operator (some first) (some second) =
      (.error fault, refused) ∧ forest.Same refused := by
  have adds := forest.addsBinary operator (some first) (some second)
  generalize forest.addBinary operator (some first) (some second) = result at adds ⊢
  cases adds with
  | twice same => exact absurd (Option.some.inj same) different
  | @unprepared fault table => exact .inr ⟨fault, _, rfl, fun _ => ⟨rfl, rfl⟩⟩
  | @refused value table fault node allocated apart prepared new =>
      cases new
      exact .inr ⟨fault, _, rfl, (linked.withTable table).same_release_allocate _⟩
  | @made value table node allocated apart prepared new leftChecked rightChecked =>
      cases new
      have before := linked.withTable table
      obtain ⟨joins, -⟩ := before.joins_linkBoth (before.loose_of_checkChild root leftChecked)
        (before.loose_of_checkChild root' rightChecked) different value
      exact .inl ⟨_, _, rfl, joins.fresh, joins.node?, joins.parent?⟩

theorem Joins.kept {node : Handle} (joins : forest.Joins operator first second node forest')
    (other : Handle) (content : Node) (located : forest.node? other = some content) :
    forest'.node? other = some content := by
  rw [joins.node?, if_neg (ne_of_fresh located joins.fresh), located]

end Joining

/-! ### Any expression -/

/-- What comes of grafting an expression. -/
inductive Grafts (forest : Forest) (expr : Expr) : Except Fault Handle × Forest → Prop where
  | made {node : Handle} {forest' : Forest} (grafted : forest.Grafted expr node forest')
      (known : ∀ other, forest'.isLive other = true →
        forest.isLive other = true ∨ forest'.Below other node) :
      Grafts forest expr (.ok node, forest')
  | refused {fault : Fault} {forest' : Forest} (linked : forest'.Linked)
      (same : forest.Same forest') : Grafts forest expr (.error fault, forest')

theorem Grafts.grafted {expr : Expr} {node : Handle}
    (grafts : forest.Grafts expr (.ok node, forest')) : forest.Grafted expr node forest' := by
  cases grafts with
  | made grafted known => exact grafted

theorem Grafts.of_withTable {expr : Expr} {table : Variables}
    {outcome : Except Fault Handle × Forest}
    (grafts : ({ forest with table } : Forest).Grafts expr outcome) :
    forest.Grafts expr outcome := by
  cases grafts with
  | made grafted known =>
      exact .made ⟨grafted.linked, grafted.kept, grafted.fresh, grafted.root, grafted.expr?⟩ known
  | refused linked same => exact .refused linked same

theorem Linked.grafts_allocate (linked : forest.Linked) {node : Node} (leaf : node.children = [])
    {expr : Expr} (found : ∀ id read, (Tree.ofNode id read (some node)).expr? = some expr) :
    forest.Grafts expr (.ok (forest.allocate node).1, (forest.allocate node).2) := by
  refine .made (linked.grafted_allocate leaf found) fun other live => ?_
  obtain ⟨content, located⟩ := isLive_iff.mp live
  rw [node?_allocate linked.formed] at located
  split at located
  next same => exact .inr (same ▸ .refl)
  next => exact .inl (isLive_iff.mpr ⟨content, located⟩)

/-- Once it has been grafted, a tree can be removed again. -/
theorem Grafts.same_removeTree (linked : forest.Linked) {expr : Expr} {node : Handle}
    (grafts : forest.Grafts expr (.ok node, forest')) {last : Forest} (linked' : last.Linked)
    (same : forest'.Same last) : forest.Same (last.removeTree node) := by
  cases grafts with
  | made grafted known =>
    have root : last.parent? node = none := (same node).2.trans grafted.root
    apply (linked.extends_removeTree linked' (grafted.kept.trans same.extends) grafted.fresh
      root).same
    intro other live
    obtain ⟨live, apart⟩ := (linked'.isLive_removeTree_of_root root).mp live
    rcases known other (same.isLive_iff.mp live) with old | below
    · exact old
    · exact absurd (below.mono fun node content located => (same.extends node content located).1)
        apart

/-- Two trees that have been grafted one after the other can be removed in this order. -/
theorem Grafts.same_removeBoth (linked : forest.Linked) {middle last refused : Forest}
    {left right : Expr} {low high : Handle} (first : forest.Grafts left (.ok low, middle))
    (second : middle.Grafts right (.ok high, last)) (linked' : refused.Linked)
    (same : last.Same refused) :
    forest.Same ((refused.removeTree low).removeTree high) := by
  cases first with
  | made grafted known =>
  cases second with
  | made grafted' known' =>
    have kept := grafted'.kept.trans same.extends
    obtain ⟨content, located, -⟩ := grafted.linked.live_of_expr? grafted.expr?
    have root : refused.parent? low = none := (kept low content located).2.trans grafted.root
    have root' : (refused.removeTree low).parent? high = none :=
      parent?_removeTree_of_root root ((same high).2.trans grafted'.root)
    have highFresh : forest.node? high = none := by
      cases found : forest.node? high with
      | none => rfl
      | some content => cases grafted'.fresh.symm.trans (grafted.kept high content found).1
    have once := linked.extends_removeTree linked' (grafted.kept.trans kept) grafted.fresh root
    have onceLinked := linked'.removeTree low
    apply (linked.extends_removeTree onceLinked once highFresh root').same
    intro other live
    obtain ⟨live, apart'⟩ := (onceLinked.isLive_removeTree_of_root root').mp live
    obtain ⟨live, apart⟩ := (linked'.isLive_removeTree_of_root root).mp live
    rcases known' other (same.isLive_iff.mp live) with middle | below
    · rcases known other middle with old | below
      · exact old
      · exact absurd (below.mono fun node content located => (kept node content located).1) apart
    · have below := below.mono fun node content located => (same.extends node content located).1
      exact absurd (linked'.below_removeTree_of_root root apart below) apart'

theorem Grafts.join {middle last joined : Forest} {operator : Operator} {left right : Expr}
    {low high node : Handle} (first : forest.Grafts left (.ok low, middle))
    (second : middle.Grafts right (.ok high, last))
    (joins : last.Joins operator low high node joined) (linked : joined.Linked) :
    forest.Grafts (.binary operator left right) (.ok node, joined) := by
  cases first with
  | made grafted known =>
  cases second with
  | made grafted' known' =>
    have operands : joined.node? node = some (.binary operator (some low) (some high)) :=
      (joins.node? node).trans (if_pos rfl)
    have lowDown : joined.IsChild low node := ⟨_, operands, by simp [Node.children]⟩
    have highDown : joined.IsChild high node := ⟨_, operands, by simp [Node.children]⟩
    refine .made (grafted.join grafted' joins linked) fun other live => ?_
    by_cases top : other = node
    · exact .inr (top ▸ .refl)
    · have before : last.isLive other = true := by
        obtain ⟨content, located⟩ := isLive_iff.mp live
        rw [joins.node?, if_neg top] at located
        exact isLive_iff.mpr ⟨content, located⟩
      rcases known' other before with before | below
      · rcases known other before with old | below
        · exact .inl old
        · have below := below.mono fun node content located =>
            (grafted'.kept node content located).1
          exact .inr ((below.mono joins.kept).tail lowDown)
      · exact .inr ((below.mono joins.kept).tail highDown)

/-- A graft of whatever expression makes its tree, or it leaves all nodes as they are. -/
theorem Linked.grafts (linked : forest.Linked) (expr : Expr) :
    forest.Grafts expr (forest.graft expr) := by
  induction expr generalizing forest with
  | number value => exact linked.grafts_allocate rfl fun _ _ => rfl
  | «variable» name =>
      obtain ⟨settled, resolved⟩ := forest.table.resolve_none name
      rw [Forest.graft, Forest.addVariable, resolved]
      have before := linked.withTable (forest.table.declare name)
      exact (before.grafts_allocate rfl fun _ _ => rfl).of_withTable
  | binary operator left right leftHypothesis rightHypothesis =>
      rw [Forest.graft]
      have first := leftHypothesis linked
      split
      next refused =>
        rw [refused] at first
        cases first with
        | refused linked' same => exact .refused linked' same
      next low middle made =>
        rw [made] at first
        have linked' := first.grafted.linked
        have second := rightHypothesis linked'
        split
        next refused =>
          rw [refused] at second
          cases second with
          | refused last same =>
              exact .refused (last.removeTree low) (first.same_removeTree linked last same)
        next high last madeToo =>
          rw [madeToo] at second
          have linked'' := second.grafted.linked
          obtain ⟨content, located, -⟩ := linked'.live_of_expr? first.grafted.expr?
          have root : last.parent? low = none :=
            (second.grafted.kept low content located).2.trans first.grafted.root
          have ending := linked''.addBinary operator (some low) (some high)
          rcases linked''.addBinary_cases operator root second.grafted.root
            (first.grafted.different second.grafted) with
            ⟨node, joined, done, joins⟩ | ⟨fault, refused, done, same⟩
          · rw [done] at ending ⊢
            exact first.join second joins ending
          · rw [done] at ending ⊢
            exact .refused ((ending.removeTree low).removeTree high)
              (first.same_removeBoth linked second ending same)

/-! ### Lawful expressions -/

theorem Linked.grafted_of_graft (linked : forest.Linked) {expr : Expr}
    (lawful : expr.isLawful = true) {node : Handle}
    (done : forest.graft expr = (.ok node, forest')) :
    forest.Grafted expr node forest' ∧ forest.table.entered expr = .ok forest'.table := by
  cases entered : forest.table.entered expr with
  | ok table =>
      obtain ⟨node', last, made, grafted, same⟩ := linked.graft_of_entered lawful entered
      cases made.symm.trans done
      exact ⟨grafted, congrArg Except.ok same.symm⟩
  | error fault =>
      obtain ⟨last, refused, -⟩ := linked.graft_of_refused lawful entered
      cases refused.symm.trans done

theorem Linked.refused_of_graft (linked : forest.Linked) {expr : Expr}
    (lawful : expr.isLawful = true) {fault : Fault}
    (done : forest.graft expr = (.error fault, forest')) :
    forest'.Linked ∧ forest.Extends forest' ∧ forest.table.entered expr = .error fault ∧
      forest'.table = forest.table.declareAll expr.names := by
  cases entered : forest.table.entered expr with
  | ok table =>
      obtain ⟨node', last, made, -⟩ := linked.graft_of_entered lawful entered
      cases made.symm.trans done
  | error fault' =>
      obtain ⟨last, refused, linked', kept, same⟩ := linked.graft_of_refused lawful entered
      cases refused.symm.trans done
      exact ⟨linked', kept, rfl, same⟩

end Forest

end Worksheet
