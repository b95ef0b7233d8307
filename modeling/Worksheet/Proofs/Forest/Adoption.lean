import Worksheet.Proofs.Forest.Refusal
import Worksheet.Proofs.Forest.Taking

/-!
# Refused adoption

A new assignment looks for the value of its source before it is known whether its operands
may be adopted.  The source may be an assignment itself, and asking for its value makes that
assignment, although nothing can be put above it.  Apart from this, a binary node that is
refused leaves a forest as it was, but for one vacant slot.
-/

namespace Worksheet

namespace Tree

/-- An assignment of what stores nothing by itself stores its own value, if it has one. -/
theorem evaluate_assignment {source : Tree} (plain : source.isPlain = true)
    (id target : Handle) (name : String) (table : Variables) :
    (∃ value, (Tree.binary id .assign (.variable target name) source).evaluate table =
      (.ok value, table.set name value)) ∨
    ∃ fault, (Tree.binary id .assign (.variable target name) source).evaluate table =
      (.error fault, table) := by
  obtain ⟨result, valued⟩ := evaluate_of_isPlain plain table
  rw [evaluate, if_pos rfl, valued]
  split
  next => exact .inr ⟨_, rfl⟩
  next =>
    cases result with
    | error fault => exact .inr ⟨fault, rfl⟩
    | ok value => exact .inl ⟨value, rfl⟩

end Tree

namespace Forest

open Steps

variable {forest : Forest} {node : Handle} {operator : Operator} {left right : Option Handle}
  {name : String} {value : Number}

/-! ### Evaluation of one node -/

theorem Linked.isPlain_ofOperand (linked : forest.Linked) {assignment : Handle}
    {target source : Option Handle}
    (located : forest.node? assignment = some (.binary .assign target source)) :
    (Tree.ofOperand forest.tree source).isPlain = true := by
  cases source with
  | none => rfl
  | some child =>
      exact linked.isPlain_tree (linked.not_assignment_of_operand located (by simp [Node.children]))

/-- An assignment stores its value if it is evaluated, and nothing if that fails. -/
theorem Linked.value_of_assignment (linked : forest.Linked) {target source : Option Handle}
    (located : forest.node? node = some (.binary .assign target source)) :
    (∃ low name value, target = some low ∧ forest.node? low = some (.variable name) ∧
      forest.value node = (.ok value, { forest with table := forest.table.set name value })) ∨
    ∃ fault, forest.value node = (.error fault, forest) := by
  rw [value_of_not_group located rfl, linked.tree_eq, located, Tree.ofNode]
  cases target with
  | none => exact .inr ⟨.noValue, by simp [Tree.ofOperand, Tree.evaluate, Tree.isVacant]⟩
  | some low =>
      obtain ⟨name, named⟩ := linked.assignment_target node low source located
      have read : Tree.ofOperand forest.tree (some low) = .variable low name := by
        rw [Tree.ofOperand, Option.elim_some, linked.tree_eq, named, Tree.ofNode]
      rw [read]
      rcases Tree.evaluate_assignment (linked.isPlain_ofOperand located) node low name
          forest.table with ⟨value, done⟩ | ⟨fault, failed⟩
      · exact .inl ⟨low, name, value, rfl, named, by simp [done]⟩
      · exact .inr ⟨fault, by simp [failed]⟩

theorem Linked.tryValue_of_target? (linked : forest.Linked)
    (target : forest.target? node = some name) :
    (∃ value, forest.tryValue node =
      (.ok (some value), { forest with table := forest.table.set name value })) ∨
    (∀ value, (forest.tryValue node).1 ≠ .ok (some value)) ∧ (forest.tryValue node).2 = forest := by
  obtain ⟨low, source, located, named⟩ := target?_eq_some_iff.mp target
  rw [tryValue]
  split
  next =>
    rcases linked.value_of_assignment located with
      ⟨_, name', value, ⟨⟩, named', done⟩ | ⟨fault, failed⟩
    · cases (name?_eq_some_iff.mp named).symm.trans named'
      exact .inl ⟨value, by rw [done]; rfl⟩
    · rw [failed]
      exact .inr ⟨by rintro value ⟨⟩, rfl⟩
  next => exact .inr ⟨by rintro value ⟨⟩, rfl⟩

theorem Linked.tryValue_of_no_target (linked : forest.Linked)
    (aimless : forest.target? node = none) : (forest.tryValue node).2 = forest := by
  by_cases plain : forest.Plain node
  · exact linked.tryValue_of_plain plain
  · simp only [Plain, not_forall, not_not] at plain
    obtain ⟨target, source, located⟩ := plain
    cases target with
    | some low =>
        obtain ⟨name, named⟩ := linked.assignment_target node low source located
        rw [target?_eq_some_iff.mpr ⟨low, source, located, name?_eq_some_iff.mpr named⟩] at aimless
        cases aimless
    | none =>
        have read : forest.trees node = [forest.tree node] := by rw [trees, located]
        rw [tryValue, hasValue, read, linked.tree_eq, located, if_neg]
        simp [Tree.ofNode, Tree.ofOperand, Tree.hasValue, Tree.isVacant]

/-! ### The value to assign -/

/-- A new assignment of the operands would make its source, which is an assignment itself:
the source has a value and a target, the name of which is given here. -/
structure Premature (forest : Forest) (operator : Operator) (left right : Option Handle)
    (name : String) (value : Number) : Prop where
  assign : operator = .assign
  apart : left ≠ right
  fit : ∀ target, left = some target → ∃ name, forest.node? target = some (.variable name)
  source : ∃ node, right = some node ∧ forest.target? node = some name ∧
    (forest.tryValue node).1 = .ok (some value)

theorem Premature.unique {name' : String} {value' : Number}
    (premature : forest.Premature operator left right name value)
    (premature' : forest.Premature operator left right name' value') :
    name = name' ∧ value = value' := by
  obtain ⟨node, rfl, target, tried⟩ := premature.source
  obtain ⟨_, ⟨⟩, target', tried'⟩ := premature'.source
  cases target.symm.trans target'
  cases tried.symm.trans tried'
  exact ⟨rfl, rfl⟩

theorem fit_iff {forest : Forest} {left : Option Handle} :
    left.elim (.ok ()) forest.checkTarget = .ok () ↔
      ∀ target, left = some target → ∃ name, forest.node? target = some (.variable name) := by
  cases left with
  | none => simp
  | some target => simp [checkTarget_eq_ok_iff]

/-- Of all operands, only those of a premature assignment have something stored. -/
theorem Linked.table_prepare (linked : forest.Linked) (operator : Operator)
    {left right : Option Handle} (apart : left.isSome = true → left ≠ right) :
    (∃ name value, forest.Premature operator left right name value ∧
        (forest.prepare operator left right).2.table = forest.table.set name value) ∨
      (∀ name value, ¬forest.Premature operator left right name value) ∧
        (forest.prepare operator left right).2.table = forest.table := by
  by_cases assign : operator = .assign
  · rw [prepare, if_pos assign]
    cases checked : left.elim (.ok ()) forest.checkTarget with
    | error fault =>
        refine .inr ⟨fun name value premature => ?_, rfl⟩
        cases checked.symm.trans (fit_iff.mpr premature.fit)
    | ok _ =>
        cases right with
        | none =>
            refine .inr ⟨fun name value premature => ?_, rfl⟩
            obtain ⟨node, same, -⟩ := premature.source
            cases same
        | some node =>
            dsimp only [assignedValue]
            cases target : forest.target? node with
            | none =>
                refine .inr ⟨fun name value premature => ?_, ?_⟩
                · obtain ⟨_, ⟨⟩, named, -⟩ := premature.source
                  cases target.symm.trans named
                · rw [linked.tryValue_of_no_target target]
            | some name =>
                rcases linked.tryValue_of_target? target with ⟨value, tried⟩ | ⟨valueless, kept⟩
                · have elsewhere : left ≠ some node := fun same => apart (same ▸ rfl) same
                  refine .inl ⟨name, value, ⟨assign, elsewhere, fit_iff.mp checked, node, rfl,
                    target, congrArg Prod.fst tried⟩, ?_⟩
                  rw [tried]
                · refine .inr ⟨fun other value premature => ?_, ?_⟩
                  · obtain ⟨_, ⟨⟩, -, tried⟩ := premature.source
                    exact valueless value tried
                  · rw [kept]
  · rw [prepare, if_neg assign]
    exact .inr ⟨fun name value premature => assign premature.assign, rfl⟩

/-! ### Step by step -/

namespace Steps

def prepare (operator : Operator) (left right : Option Handle) : Steps (Option Number) :=
  if operator = .assign then do
    ask fun forest => left.elim (.ok ()) forest.checkTarget
    assignedValue right
  else return none

def linkBoth (operator : Operator) (binary : Handle) (left right : Option Handle)
    (value : Option Number) : Steps Unit := do
  link binary .left left
  link binary .right right
  if operator = .assign then push binary value

def addBinary (operator : Operator) (left right : Option Handle) : Steps Handle := do
  if left.isSome && left = right then throw (.misplaced .operandTwice)
  let value ← prepare operator left right
  let node ← make (.binary operator none none)
  match ← look fun forest => (do forest.checkOperand node left; forest.checkOperand node right) with
  | .error fault =>
      write (·.release node)
      throw fault
  | .ok () =>
      linkBoth operator node left right value
      return node

end Steps

theorem on_prepare (operator : Operator) (left right : Option Handle) :
    (Steps.prepare operator left right).on forest = forest.prepare operator left right := by
  rw [Steps.prepare, Forest.prepare]
  split
  next =>
    cases checked : left.elim (.ok ()) forest.checkTarget with
    | error fault => exact on_ask_of_error checked _
    | ok _ => exact on_ask checked _
  next => rfl

theorem Linked.on_linkBoth (linked : forest.Linked) {binary : Handle}
    (located : forest.node? binary = some (.binary operator none none))
    (first : ∀ node, left = some node → forest.Fits operator binary .left node)
    (second : ∀ node, right = some node → ∃ content, forest.node? node = some content)
    (value : Option Number) :
    (Steps.linkBoth operator binary left right value).on forest =
      (.ok (), forest.linkBoth operator binary left right value) := by
  have live : ∀ node, left = some node → ∃ content, forest.node? node = some content := by
    intro node same
    obtain ⟨-, lower, found, -⟩ := first node same
    exact ⟨lower, found⟩
  have once := linked.link located rfl first
  have bares (other : Handle) := linked.bare_node?_link binary other .left left
  obtain ⟨content, located', bare⟩ := exists_of_bare (bares binary).symm located
  have isBinary : content.operator? = some operator := by
    rw [← Node.operator?_bare, ← bare]
    rfl
  have live' : ∀ node, right = some node →
      ∃ content, (forest.link binary .left left).node? node = some content := by
    intro node same
    obtain ⟨lower, found⟩ := second node same
    obtain ⟨lower', found', -⟩ := exists_of_bare (bares node).symm found
    exact ⟨lower', found'⟩
  rw [Steps.linkBoth, on_bind_of_ok (linked.on_link located rfl .left live),
    on_bind_of_ok (once.on_link located' isBinary .right live'), Forest.linkBoth]
  split
  next => exact on_push binary value
  next => rfl

/-- Step by step, a binary node is made as it is said to be. -/
theorem Linked.on_addBinary (linked : forest.Linked) (operator : Operator)
    (left right : Option Handle) :
    (Steps.addBinary operator left right).on forest = forest.addBinary operator left right := by
  rw [Steps.addBinary, Forest.addBinary]
  split
  next => rfl
  next =>
    obtain ⟨outcome, table, prepared⟩ := forest.prepare_eq operator left right
    have taken := (on_prepare operator left right).trans prepared
    rw [prepared]
    cases outcome with
    | error fault => exact on_bind_of_error taken _
    | ok value =>
        rcases new : ({ forest with table } : Forest).allocate (.binary operator none none) with
          ⟨node, allocated⟩
        rw [on_bind_of_ok taken, on_bind_of_ok (on_make new), on_look]
        dsimp only
        rw [new]
        dsimp only
        cases checked : (do
            allocated.checkOperand node left
            allocated.checkOperand node right : Except Fault Unit) with
        | error fault => rfl
        | ok _ =>
            obtain ⟨_, leftChecked, rightChecked⟩ := bind_eq_ok_iff.mp checked
            cases new
            have before := linked.withTable table
            have located := node?_allocate_self before.formed (.binary operator none none)
            have linked' : (({ forest with table } : Forest).allocate
                (.binary operator none none)).2.Linked := before.allocate rfl
            refine on_bind_of_ok (linked'.on_linkBoth located ?_ ?_ value) _
            · intro node same
              refine before.fits_left_allocate
                (checkOperand_eq_ok_iff.mp leftChecked node same) fun assign => ?_
              subst same
              obtain ⟨name, named⟩ := target_of_prepare (congrArg Prod.fst prepared) assign
              exact ⟨name, named⟩
            · exact live_of_checkOperand linked' rightChecked

/-! ### What is left by a refusal -/

/-- All nodes and their links are as they were, and at most one vacant slot is worn. -/
structure Spared (forest after : Forest) : Prop where
  nodes : after.nodes = forest.nodes
  same : forest.Same after
  cells : after.cells = forest.cells ∨ forest.cells.Worn after.cells

theorem spared_of_cells_eq {after : Forest} (same : after.cells = forest.cells) :
    forest.Spared after where
  nodes := congrArg Pool.handles same
  same node := by rw [node?, node?, parent?, parent?, same]; exact ⟨rfl, rfl⟩
  cells := .inl same

theorem Linked.spared_release_allocate (linked : forest.Linked) (table : Variables)
    (content : Node) :
    forest.Spared ((({ forest with table } : Forest).allocate content).2.release
      (({ forest with table } : Forest).allocate content).1) where
  nodes := (Pool.worn_insert linked.formed ⟨content, none⟩).handles
  same := (linked.withTable table).same_release_allocate content
  cells := .inr (Pool.worn_insert linked.formed ⟨content, none⟩)

/-- An assignment never gets below another one, whatever has been stored by then. -/
theorem Linked.refused_of_premature (linked : forest.Linked)
    (premature : forest.Premature operator left right name value) :
    ∃ fault, (forest.addBinary operator left right).1 = .error fault := by
  have adds := forest.addsBinary operator left right
  generalize forest.addBinary operator left right = result at adds ⊢
  cases adds with
  | made apart prepared new leftChecked rightChecked =>
      cases new
      obtain ⟨node, rfl, target, -⟩ := premature.source
      obtain ⟨low, source, located, -⟩ := target?_eq_some_iff.mp target
      exact absurd located ((linked.withTable _).plain_of_checkChild_allocate
        (checkOperand_eq_ok_iff.mp rightChecked node rfl) (some low) source)
  | _ => exact ⟨_, rfl⟩

theorem Linked.spared_of_refused (linked : forest.Linked) {fault : Fault} {after : Forest}
    (refused : forest.addBinary operator left right = (.error fault, after)) :
    forest.Spared after ∧
    ((∃ name value, forest.Premature operator left right name value ∧
        after.table = forest.table.set name value) ∨
      (∀ name value, ¬forest.Premature operator left right name value) ∧
        after.table = forest.table) := by
  have adds := forest.addsBinary operator left right
  rw [refused] at adds
  cases adds with
  | twice same =>
      exact ⟨spared_of_cells_eq rfl, .inr ⟨fun _ _ premature => premature.apart same, rfl⟩⟩
  | unprepared apart prepared =>
      have stored := linked.table_prepare operator apart
      rw [prepared] at stored
      exact ⟨spared_of_cells_eq rfl, stored⟩
  | @refused value table fault node allocated apart prepared new =>
      cases new
      have stored := linked.table_prepare operator apart
      rw [prepared] at stored
      exact ⟨linked.spared_release_allocate table _, stored⟩

/-- A binary node that is refused leaves nodes, links and variables as they were, unless it is an
assignment of an assignment that has a value: the inner one is then made. -/
theorem Reachable.addBinary_refused (reachable : forest.Reachable) (operator : Operator)
    (left right : Option Handle) :
    (Steps.addBinary operator left right).on forest = forest.addBinary operator left right ∧
    (∀ name value, forest.Premature operator left right name value →
      ∃ fault, (forest.addBinary operator left right).1 = .error fault) ∧
    ∀ fault after, (Steps.addBinary operator left right).on forest = (.error fault, after) →
      forest.Spared after ∧
      (∀ name value, forest.Premature operator left right name value →
        after.table = forest.table.set name value) ∧
      ((∀ name value, ¬forest.Premature operator left right name value) →
        after.table = forest.table) := by
  have linked := reachable.linked
  refine ⟨linked.on_addBinary operator left right, fun _ _ => linked.refused_of_premature,
    fun fault after taken => ?_⟩
  rw [linked.on_addBinary] at taken
  obtain ⟨spared, left⟩ := linked.spared_of_refused taken
  refine ⟨spared, fun name value premature => ?_, fun mature => ?_⟩
  · rcases left with ⟨name', value', premature', stored⟩ | ⟨mature, -⟩
    · obtain ⟨rfl, rfl⟩ := premature.unique premature'
      exact stored
    · exact absurd premature (mature name value)
  · rcases left with ⟨name, value, premature, -⟩ | ⟨-, kept⟩
    · exact absurd premature (mature name value)
    · exact kept

/-- A sum of a variable and an assignment is not made, and the cleared target of the
assignment stays without a value. -/
theorem Reachable.addBinary_refused_sum :
    let forest := (⟨.empty, .empty⟩ : Forest).run
      [.variable "a" none, .constant (.int 5), .assignment ⟨0, 0⟩ ⟨1, 0⟩, .table (.clear "a"),
        .variable "x" none]
    let sum := Steps.addBinary .add (some ⟨3, 0⟩) (some ⟨2, 0⟩)
    forest.Reachable ∧ ∃ after, sum.on forest = (.error (.misplaced .assignmentBelow), after) ∧
      forest.Spared after ∧ after.table = forest.table ∧ after.table.value? "a" = none ∧
      forest.cells.Worn after.cells := by
  intro forest sum
  have reachable : forest.Reachable := ⟨_, _, rfl⟩
  have evaluated : (sum.on forest).1 = .error (.misplaced .assignmentBelow) ∧
      (sum.on forest).2.cells.free = [4] ∧ forest.cells.free = [] ∧
      forest.table.value? "a" = none := by decide +kernel
  obtain ⟨refused, vacant, full, cleared⟩ := evaluated
  obtain ⟨-, -, left⟩ := addBinary_refused reachable .add (some ⟨3, 0⟩) (some ⟨2, 0⟩)
  obtain ⟨spared, -, kept⟩ := left _ _ (Prod.ext refused rfl)
  have kept := kept fun name value premature => by cases premature.assign
  refine ⟨reachable, _, Prod.ext refused rfl, spared, kept, kept ▸ cleared, ?_⟩
  refine spared.cells.resolve_left fun same => ?_
  cases vacant.symm.trans ((congrArg Pool.free same).trans full)

/-- An assignment whose source is an assignment is refused, and yet the inner one is made: its
target, which had been cleared, has a value again. -/
theorem stored_by_refused_assignment :
    let forest := (⟨.empty, .empty⟩ : Forest).run
      [.variable "a" none, .constant (.int 5), .assignment ⟨0, 0⟩ ⟨1, 0⟩, .table (.clear "a"),
        .variable "x" none]
    let attempt := forest.addAssignment ⟨3, 0⟩ ⟨2, 0⟩
    forest.Reachable ∧ attempt.1 = .error (.misplaced .assignmentBelow) ∧
      forest.table.value? "a" = none ∧ attempt.2.table.value? "a" = some (.int 5) := by
  intro forest attempt
  exact ⟨⟨_, _, rfl⟩, by decide +kernel, by decide +kernel, by decide +kernel⟩

end Forest

end Worksheet
