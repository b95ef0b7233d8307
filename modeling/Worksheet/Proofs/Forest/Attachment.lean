import Worksheet.Proofs.Expr.Faults
import Worksheet.Proofs.Forest.Gathering
import Worksheet.Proofs.Forest.Purity

/-!
# Legal attachments

What a node may be put below is settled by the contents of both, by the links between them,
by the places that are free, and where an assignment is concerned by one evaluation.  The
operations refuse nothing else, and only what would close a cycle is refused as a cycle.
-/

namespace Worksheet

theorem bind_ne_error {ε α β : Type} {first : Except ε α} {next : α → Except ε β} {problem : ε}
    (begun : first ≠ .error problem)
    (continued : ∀ value, first = .ok value → next value ≠ .error problem) :
    first >>= next ≠ .error problem := by
  cases first with
  | error problem' => simpa [bind, Except.bind] using begun
  | ok value => exact continued value rfl

/-! ### Evaluation finds no cycles -/

theorem Number.operate_ne_cycle (operator : Operator) (left right : Number) :
    Number.operate operator left right ≠ .error .cycle := by
  intro refused
  rcases Number.fault_of_operate_cases refused with divided | mixed
  · cases divided
  · cases mixed

theorem Tree.evaluate_ne_cycle (tree : Tree) (table : Variables) :
    (tree.evaluate table).1 ≠ .error .cycle := by
  induction tree generalizing table with
  | «variable» id name =>
      rw [evaluate]
      split <;> simp
  | binary id operator left right leftHypothesis rightHypothesis =>
      rw [evaluate]
      split
      next => simp
      next =>
        split
        next =>
          split
          next => simp
          next failed => exact rightHypothesis table
        next =>
          split
          next first middle _ =>
            split
            next second last _ => exact Number.operate_ne_cycle operator first second
            next => exact rightHypothesis middle
          next => exact leftHypothesis table
  | _ => simp [evaluate]

namespace Forest

variable {forest after : Forest} {binary group target parent child : Handle} {operator : Operator}

theorem value_ne_cycle (forest : Forest) (node : Handle) :
    (forest.value node).1 ≠ .error .cycle := by
  rw [value]
  split
  next => split <;> simp
  next => exact Tree.evaluate_ne_cycle (forest.tree node) forest.table

theorem tryValue_ne_cycle (forest : Forest) (node : Handle) :
    (forest.tryValue node).1 ≠ .error .cycle := by
  rw [tryValue]
  split
  next => exact fun refused => forest.value_ne_cycle node (error_of_map refused)
  next => simp

theorem assignedValue_ne_cycle (forest : Forest) (right : Option Handle) :
    (forest.assignedValue right).1 ≠ .error .cycle := by
  cases right with
  | none => simp [assignedValue]
  | some node => exact forest.tryValue_ne_cycle node

/-! ### Checks -/

/-- The node is a binary one, and the child may be an operand of it: it is no group and no
assignment, and the node is not at or below it. -/
def Admits (forest : Forest) (binary child : Handle) : Prop :=
  (∃ operator left right, forest.node? binary = some (.binary operator left right)) ∧
  (∃ lower, forest.node? child = some lower ∧ lower.isGroup = false ∧
    lower.isAssignment = false) ∧
  ¬forest.Below binary child

/-- A link from the child up to the node would close a cycle of binary nodes. -/
def ClosesCycle (forest : Forest) (binary child : Handle) : Prop :=
  (∃ operator left right, forest.node? binary = some (.binary operator left right)) ∧
  (∃ operator left right, forest.node? child = some (.binary operator left right) ∧
    operator ≠ .assign) ∧
  forest.Below binary child

theorem operator_eq_ok_iff' :
    forest.operator binary = .ok operator ↔
      ∃ left right, forest.node? binary = some (.binary operator left right) := by
  rw [operator_eq_ok_iff]
  constructor
  · rintro ⟨content, located, isBinary⟩
    obtain ⟨left, right, rfl⟩ := Node.operator?_eq_some_iff.mp isBinary
    exact ⟨left, right, located⟩
  · rintro ⟨left, right, located⟩
    exact ⟨_, located, rfl⟩

theorem eq_of_below_leaf {low high : Handle} {content : Node}
    (located : forest.node? high = some content) (leaf : content.children = [])
    (below : forest.Below low high) : low = high := by
  rcases below_iff.mp below with same | ⟨next, ⟨content', found, member⟩, -⟩
  · exact same
  · cases located.symm.trans found
    rw [leaf] at member
    cases member

theorem Linked.checkChild_eq_ok_iff_admits (linked : forest.Linked)
    (found : forest.operator binary = .ok operator) :
    forest.checkChild binary child = .ok () ↔ forest.Admits binary child := by
  obtain ⟨left, right, located⟩ := operator_eq_ok_iff'.mp found
  rw [linked.checkChild_eq_ok_iff]
  constructor
  · rintro ⟨upper, lower, above, below, allowed, apart⟩
    cases located.symm.trans above
    obtain ⟨single, -, topmost⟩ := Node.misplacement?_eq_none_iff.mp allowed
    refine ⟨⟨_, _, _, located⟩, ⟨lower, below, single, ?_⟩, apart⟩
    cases isAssignment : lower.isAssignment with
    | false => rfl
    | true => cases topmost isAssignment
  · rintro ⟨-, ⟨lower, below, single, free⟩, apart⟩
    refine ⟨_, lower, located, below, Node.misplacement?_eq_none_iff.mpr ⟨single, rfl, ?_⟩, apart⟩
    intro isAssignment
    cases free.symm.trans isAssignment

theorem Linked.checkChild_eq_cycle_iff (linked : forest.Linked) :
    forest.checkChild parent child = .error .cycle ↔ forest.ClosesCycle parent child := by
  have refused : forest.checkChild parent child = .error .cycle ↔
      ∃ upper lower, forest.node? parent = some upper ∧ forest.node? child = some lower ∧
        lower.misplacement? upper = none ∧ forest.Below parent child := by
    rw [checkChild, node, node]
    cases forest.node? parent with
    | none => simp [bind, Except.bind]
    | some upper =>
        cases forest.node? child with
        | none => simp [bind, Except.bind]
        | some lower =>
            cases allowed : lower.misplacement? upper with
            | some why => simp [bind, Except.bind, allowed]
            | none =>
                by_cases up : forest.contains child parent = true
                · simp [bind, Except.bind, allowed, up, linked.contains_iff.mp up]
                · have apart := mt linked.contains_iff.mpr up
                  simp [bind, Except.bind, allowed, up, apart]
  rw [refused]
  constructor
  · rintro ⟨upper, lower, above, below, allowed, up⟩
    obtain ⟨single, open', topmost⟩ := Node.misplacement?_eq_none_iff.mp allowed
    -- A group has no parent, so one that is below the child would be the child.
    have isBinary : ∃ operator left right, upper = .binary operator left right := by
      cases upper with
      | binary operator left right => exact ⟨operator, left, right, rfl⟩
      | group members =>
          obtain rfl := linked.eq_of_below_of_root up (linked.group_parent? parent members above)
          cases above.symm.trans below
          cases single
      | _ => cases open'
    obtain ⟨operator, left, right, rfl⟩ := isBinary
    refine ⟨⟨operator, left, right, above⟩, ?_, up⟩
    cases lower with
    | binary operator' left' right' =>
        refine ⟨operator', left', right', below, ?_⟩
        rintro rfl
        cases topmost rfl
    | group members => cases single
    | _ =>
        obtain rfl := eq_of_below_leaf below rfl up
        cases above.symm.trans below
  · rintro ⟨⟨operator, left, right, above⟩, ⟨operator', left', right', below, other⟩, up⟩
    refine ⟨_, _, above, below, Node.misplacement?_eq_none_iff.mpr ⟨rfl, rfl, ?_⟩, up⟩
    intro isAssignment
    obtain ⟨_, _, same⟩ := Node.isAssignment_eq_true_iff.mp isAssignment
    cases same
    exact absurd rfl other

/-! ### Operands -/

theorem plain_iff_of_binary {left right : Option Handle}
    (located : forest.node? binary = some (.binary operator left right)) :
    forest.Plain binary ↔ operator ≠ .assign := by
  constructor
  · rintro plain rfl
    exact plain left right located
  · intro other first second assignment
    cases located.symm.trans assignment
    exact other rfl

/-- An operand is put on the right of every binary node that admits it, if an assignment has
something to store. -/
theorem Linked.setRight_eq_ok_iff (linked : forest.Linked) :
    forest.setRight binary (some child) = .ok after ↔
      forest.Admits binary child ∧
      ((∃ left right, forest.node? binary = some (.binary .assign left right)) ∧
          (∃ value, (forest.tryValue child).1 = .ok value ∧
            after = (forest.link binary .right (some child)).store binary value) ∨
        forest.Plain binary ∧ after = forest.link binary .right (some child)) := by
  have valued_of {operator : Operator} (found : forest.operator binary = .ok operator)
      (checked : forest.checkChild binary child = .ok ()) :
      ∃ value, forest.assignedValue (some child) = (value, forest) :=
    linked.assignedValue_of_plain fun node same => by
      cases same
      exact linked.plain_of_checkChild found checked
  rw [Forest.setRight, bind_eq_ok_iff]
  constructor
  · rintro ⟨operator, found, done⟩
    obtain ⟨left, right, located⟩ := operator_eq_ok_iff'.mp found
    split at done
    next assign =>
      subst assign
      obtain ⟨_, checked, done⟩ := bind_eq_ok_iff.mp done
      obtain ⟨outcome, valued⟩ := valued_of found checked
      rw [valued] at done
      obtain ⟨value, rfl, done⟩ := bind_eq_ok_iff.mp done
      cases done
      exact ⟨(linked.checkChild_eq_ok_iff_admits found).mp checked,
        .inl ⟨⟨left, right, located⟩, value, congrArg Prod.fst valued, rfl⟩⟩
    next other =>
      obtain ⟨_, checked, done⟩ := bind_eq_ok_iff.mp done
      cases done
      exact ⟨(linked.checkChild_eq_ok_iff_admits found).mp checked,
        .inr ⟨(plain_iff_of_binary located).mpr other, rfl⟩⟩
  · rintro ⟨admits, outcome⟩
    obtain ⟨operator, left, right, located⟩ := admits.1
    have found := operator_eq_ok_iff'.mpr ⟨left, right, located⟩
    have checked := (linked.checkChild_eq_ok_iff_admits found).mpr admits
    refine ⟨operator, found, ?_⟩
    rcases outcome with ⟨⟨first, second, assignment⟩, value, valued, rfl⟩ | ⟨plain, rfl⟩
    · cases located.symm.trans assignment
      obtain ⟨outcome, valued'⟩ := valued_of found checked
      cases valued.symm.trans (congrArg Prod.fst valued')
      rw [if_pos rfl]
      refine bind_eq_ok_iff.mpr ⟨(), checked, ?_⟩
      rw [valued']
      exact bind_eq_ok_iff.mpr ⟨value, rfl, rfl⟩
    · rw [if_neg ((plain_iff_of_binary located).mp plain)]
      exact bind_eq_ok_iff.mpr ⟨(), checked, rfl⟩

/-- An operand is put on the left of every binary node that admits it, if it is a variable
where it has to be one and the right operand of an assignment does not fail. -/
theorem Linked.setLeft_eq_ok_iff (linked : forest.Linked) :
    forest.setLeft binary (some child) = .ok after ↔
      forest.Admits binary child ∧
      ((∃ left right, forest.node? binary = some (.binary .assign left right) ∧
          (∃ name, forest.node? child = some (.variable name)) ∧
          ∃ value, (forest.assignedValue right).1 = .ok value ∧
            after = value.elim (forest.link binary .left (some child)) fun number =>
              (forest.link binary .left (some child)).store binary (some number)) ∨
        forest.Plain binary ∧ after = forest.link binary .left (some child)) := by
  -- No assignment is an operand, so asking for the value of a source stores nothing.
  have valued_of {left right : Option Handle}
      (located : forest.node? binary = some (.binary .assign left right)) :
      ∃ value, forest.assignedValue right = (value, forest) :=
    linked.assignedValue_of_plain fun node same =>
      linked.not_assignment_of_operand located (by simp [Node.children, same])
  rw [Forest.setLeft, bind_eq_ok_iff]
  constructor
  · rintro ⟨operator, found, done⟩
    obtain ⟨left, right, located⟩ := operator_eq_ok_iff'.mp found
    split at done
    next assign =>
      subst assign
      obtain ⟨_, target, done⟩ := bind_eq_ok_iff.mp done
      obtain ⟨_, checked, done⟩ := bind_eq_ok_iff.mp done
      obtain ⟨_, held, done⟩ := bind_eq_ok_iff.mp done
      rw [Forest.right, operands, located] at held
      cases held
      obtain ⟨outcome, valued⟩ := valued_of located
      rw [valued] at done
      obtain ⟨value, rfl, done⟩ := bind_eq_ok_iff.mp done
      refine ⟨(linked.checkChild_eq_ok_iff_admits found).mp checked, .inl ⟨left, right, located,
        checkTarget_eq_ok_iff.mp target, value, congrArg Prod.fst valued, ?_⟩⟩
      cases value with
      | none =>
          cases done
          rfl
      | some number =>
          cases done
          rfl
    next other =>
      obtain ⟨_, checked, done⟩ := bind_eq_ok_iff.mp done
      cases done
      exact ⟨(linked.checkChild_eq_ok_iff_admits found).mp checked,
        .inr ⟨(plain_iff_of_binary located).mpr other, rfl⟩⟩
  · rintro ⟨admits, outcome⟩
    obtain ⟨operator, left, right, located⟩ := admits.1
    have found := operator_eq_ok_iff'.mpr ⟨left, right, located⟩
    have checked := (linked.checkChild_eq_ok_iff_admits found).mpr admits
    refine ⟨operator, found, ?_⟩
    rcases outcome with ⟨first, second, assignment, named, value, valued, rfl⟩ | ⟨plain, rfl⟩
    · cases located.symm.trans assignment
      obtain ⟨outcome, valued'⟩ := valued_of located
      cases valued.symm.trans (congrArg Prod.fst valued')
      have held : forest.right binary = .ok right := by
        rw [Forest.right, operands, located]
        rfl
      rw [if_pos rfl]
      refine bind_eq_ok_iff.mpr ⟨(), checkTarget_eq_ok_iff.mpr named, ?_⟩
      refine bind_eq_ok_iff.mpr ⟨(), checked, bind_eq_ok_iff.mpr ⟨right, held, ?_⟩⟩
      rw [valued']
      refine bind_eq_ok_iff.mpr ⟨value, rfl, ?_⟩
      cases value <;> rfl
    · rw [if_neg ((plain_iff_of_binary located).mp plain)]
      exact bind_eq_ok_iff.mpr ⟨(), checked, rfl⟩

/-! ### Groups and parents -/

theorem Linked.groupPush_eq_ok_iff (linked : forest.Linked) :
    forest.groupPush group child = .ok after ↔
      (∃ members, forest.node? group = some (.group members)) ∧
      (∃ lower, forest.node? child = some lower ∧ lower.isGroup = false) ∧
      after = forest.adopt group child := by
  constructor
  · intro done
    obtain ⟨members, found, done⟩ := bind_eq_ok_iff.mp done
    obtain ⟨_, checked, done⟩ := bind_eq_ok_iff.mp done
    cases done
    obtain ⟨upper, lower, -, below, allowed, -⟩ := linked.checkChild_eq_ok_iff.mp checked
    exact ⟨⟨members, members_eq_ok_iff.mp found⟩,
      ⟨lower, below, (Node.misplacement?_eq_none_iff.mp allowed).1⟩, rfl⟩
  · rintro ⟨located, ⟨lower, below, single⟩, rfl⟩
    exact linked.groupPush_eq_ok located below single

/-- A node that may be put below another one goes to the first place that is free there. -/
theorem setParent_of_checked {upper lower : Node} (below : forest.node? child = some lower)
    (single : lower.isGroup = false) (checked : forest.checkChild parent child = .ok ())
    (above : forest.node? parent = some upper) :
    forest.setParent child (some parent) =
      match upper with
      | .group _ => forest.groupPush parent child
      | .binary _ none _ => forest.setLeft parent (some child)
      | .binary _ _ none => forest.setRight parent (some child)
      | .binary _ _ _ => .error (.misplaced .operandsTaken)
      | _ => .error (.notBinary parent) := by
  have found : forest.node child = .ok lower := node_eq_ok_iff.mpr below
  have found' : forest.node parent = .ok upper := node_eq_ok_iff.mpr above
  simp only [Forest.setParent, found, found', checked, single, operands, above, bind, Except.bind]
  cases upper with
  | binary operator left right => cases left <;> cases right <;> rfl
  | _ => rfl

theorem setParent_of_refused {lower : Node} (below : forest.node? child = some lower)
    (single : lower.isGroup = false) {fault : Fault}
    (refused : forest.checkChild parent child = .error fault) :
    forest.setParent child (some parent) = .error fault := by
  have found : forest.node child = .ok lower := node_eq_ok_iff.mpr below
  simp only [Forest.setParent, found, refused, single, bind, Except.bind]
  rfl

theorem single_of_setParent (done : forest.setParent child (some parent) = .ok after) :
    ∃ lower, forest.node? child = some lower ∧ lower.isGroup = false := by
  obtain ⟨lower, found, done⟩ := bind_eq_ok_iff.mp done
  refine ⟨lower, node_eq_ok_iff.mp found, ?_⟩
  cases isGroup : lower.isGroup with
  | false => rfl
  | true =>
      rw [isGroup] at done
      cases done

theorem Linked.setParent_eq_ok_iff (linked : forest.Linked) :
    forest.setParent child (some parent) = .ok after ↔
      (∃ lower, forest.node? child = some lower ∧ lower.isGroup = false) ∧
      ((∃ members, forest.node? parent = some (.group members)) ∧
          forest.groupPush parent child = .ok after ∨
        (∃ operator right, forest.node? parent = some (.binary operator none right)) ∧
          forest.setLeft parent (some child) = .ok after ∨
        (∃ operator left, forest.node? parent = some (.binary operator (some left) none)) ∧
          forest.setRight parent (some child) = .ok after) := by
  constructor
  · intro done
    obtain ⟨lower, below, single⟩ := single_of_setParent done
    refine ⟨⟨lower, below, single⟩, ?_⟩
    cases checked : forest.checkChild parent child with
    | error fault =>
        rw [setParent_of_refused below single checked] at done
        cases done
    | ok _ =>
        obtain ⟨upper, _, above, -⟩ := linked.checkChild_eq_ok_iff.mp checked
        rw [setParent_of_checked below single checked above] at done
        cases upper with
        | group members => exact .inl ⟨⟨members, above⟩, done⟩
        | binary operator left right =>
            cases left with
            | none => exact .inr (.inl ⟨⟨operator, right, above⟩, done⟩)
            | some first =>
                cases right with
                | none => exact .inr (.inr ⟨⟨operator, first, above⟩, done⟩)
                | some second => cases done
        | _ => cases done
  · rintro ⟨⟨lower, below, single⟩, outcome⟩
    -- Each of the three operations makes the check that is made here before it.
    rcases outcome with ⟨⟨members, above⟩, done⟩ | ⟨⟨operator, right, above⟩, done⟩ |
      ⟨⟨operator, left, above⟩, done⟩
    · obtain ⟨_, _, rest⟩ := bind_eq_ok_iff.mp done
      obtain ⟨_, checked, -⟩ := bind_eq_ok_iff.mp rest
      rw [setParent_of_checked below single checked above]
      exact done
    · have found := operator_eq_ok_iff'.mpr ⟨none, right, above⟩
      have checked :=
        (linked.checkChild_eq_ok_iff_admits found).mpr (linked.setLeft_eq_ok_iff.mp done).1
      rw [setParent_of_checked below single checked above]
      exact done
    · have found := operator_eq_ok_iff'.mpr ⟨some left, none, above⟩
      have checked :=
        (linked.checkChild_eq_ok_iff_admits found).mpr (linked.setRight_eq_ok_iff.mp done).1
      rw [setParent_of_checked below single checked above]
      exact done

/-! ### Cycles -/

theorem node_ne_cycle (forest : Forest) (node : Handle) : forest.node node ≠ .error .cycle := by
  unfold Forest.node
  split <;> simp

theorem operator_ne_cycle (forest : Forest) (binary : Handle) :
    forest.operator binary ≠ .error .cycle := by
  unfold Forest.operator
  split <;> simp

theorem operands_ne_cycle (forest : Forest) (binary : Handle) :
    forest.operands binary ≠ .error .cycle := by
  unfold operands
  split <;> simp

theorem members_ne_cycle (forest : Forest) (group : Handle) :
    forest.members group ≠ .error .cycle := by
  unfold members
  split <;> simp

/-- Apart from the check of the child, an operation has no question about cycles. -/
theorem setRight_ne_cycle (checked : forest.checkChild binary child ≠ .error .cycle) :
    forest.setRight binary (some child) ≠ .error .cycle := by
  refine bind_ne_error (forest.operator_ne_cycle binary) fun operator _ => ?_
  split
  next =>
    refine bind_ne_error checked fun _ _ => ?_
    obtain ⟨value, table, valued⟩ := forest.assignedValue_eq (some child)
    have acyclic := forest.assignedValue_ne_cycle (some child)
    rw [valued] at acyclic ⊢
    exact bind_ne_error acyclic fun _ _ => by simp [pure, Except.pure]
  next => exact bind_ne_error checked fun _ _ => by simp [pure, Except.pure]

theorem setLeft_ne_cycle (checked : forest.checkChild binary child ≠ .error .cycle) :
    forest.setLeft binary (some child) ≠ .error .cycle := by
  refine bind_ne_error (forest.operator_ne_cycle binary) fun operator _ => ?_
  split
  next =>
    refine bind_ne_error ?_ fun _ _ => bind_ne_error checked fun _ _ => ?_
    · refine bind_ne_error (forest.node_ne_cycle child) fun content _ => ?_
      split <;> simp
    · refine bind_ne_error ?_ fun right _ => ?_
      · exact fun refused => forest.operands_ne_cycle binary (error_of_map refused)
      · obtain ⟨value, table, valued⟩ := forest.assignedValue_eq right
        have acyclic := forest.assignedValue_ne_cycle right
        rw [valued] at acyclic ⊢
        refine bind_ne_error acyclic fun value _ => ?_
        cases value <;> simp [pure, Except.pure]
  next => exact bind_ne_error checked fun _ _ => by simp [pure, Except.pure]

theorem setParent_ne_cycle (checked : forest.checkChild parent child ≠ .error .cycle) :
    forest.setParent child (some parent) ≠ .error .cycle := by
  refine bind_ne_error (forest.node_ne_cycle child) fun lower _ => ?_
  dsimp only
  split
  next => exact bind_ne_error (by simp) fun _ refused => by cases refused
  next =>
    refine bind_ne_error checked fun _ _ => ?_
    refine bind_ne_error (forest.node_ne_cycle parent) fun upper _ => ?_
    split
    next =>
      refine bind_ne_error (forest.members_ne_cycle parent) fun _ _ => ?_
      exact bind_ne_error checked fun _ _ => by simp [pure, Except.pure]
    next =>
      refine bind_ne_error (forest.operands_ne_cycle parent) fun _ _ => ?_
      split
      next => exact setLeft_ne_cycle checked
      next => exact setRight_ne_cycle checked
      next => simp

theorem Linked.setRight_eq_cycle_iff (linked : forest.Linked) :
    forest.setRight binary (some child) = .error .cycle ↔ forest.ClosesCycle binary child := by
  rw [← linked.checkChild_eq_cycle_iff]
  refine ⟨not_imp_not.mp setRight_ne_cycle, fun refused => ?_⟩
  obtain ⟨operator, left, right, located⟩ := (linked.checkChild_eq_cycle_iff.mp refused).1
  have found := operator_eq_ok_iff'.mpr ⟨left, right, located⟩
  simp only [Forest.setRight, checkOperand, found, refused, bind, Except.bind, ite_self]

/-- An assignment asks first for a variable as its target, so it is left out here. -/
theorem Linked.setLeft_eq_cycle_iff (linked : forest.Linked) (plain : forest.Plain binary) :
    forest.setLeft binary (some child) = .error .cycle ↔ forest.ClosesCycle binary child := by
  rw [← linked.checkChild_eq_cycle_iff]
  refine ⟨not_imp_not.mp setLeft_ne_cycle, fun refused => ?_⟩
  obtain ⟨operator, left, right, located⟩ := (linked.checkChild_eq_cycle_iff.mp refused).1
  have found := operator_eq_ok_iff'.mpr ⟨left, right, located⟩
  have other := (plain_iff_of_binary located).mp plain
  simp only [Forest.setLeft, checkOperand, found, refused, other, if_false, bind, Except.bind]

theorem Linked.setParent_eq_cycle_iff (linked : forest.Linked) :
    forest.setParent child (some parent) = .error .cycle ↔ forest.ClosesCycle parent child := by
  rw [← linked.checkChild_eq_cycle_iff]
  refine ⟨not_imp_not.mp setParent_ne_cycle, fun refused => ?_⟩
  obtain ⟨-, ⟨operator, left, right, below, -⟩, -⟩ := linked.checkChild_eq_cycle_iff.mp refused
  exact setParent_of_refused below rfl refused

/-! ### All attachments -/

/-- A live node is put below another one exactly where that is legal, and a cycle is reported exactly
where a binary node would get below itself. -/
theorem Reachable.attachment_iff (reachable : forest.Reachable)
    (live : forest.isLive child = true) (target : Handle) :
    ((∃ after, forest.groupPush target child = .ok after) ↔
      (∃ members, forest.node? target = some (.group members)) ∧
        ∀ members, forest.node? child ≠ some (.group members)) ∧
    ((∃ after, forest.setRight target (some child) = .ok after) ↔
      forest.Admits target child ∧
        ∀ left right, forest.node? target = some (.binary .assign left right) →
          ∃ value, (forest.tryValue child).1 = .ok value) ∧
    ((∃ after, forest.setLeft target (some child) = .ok after) ↔
      forest.Admits target child ∧
        ∀ left right, forest.node? target = some (.binary .assign left right) →
          (∃ name, forest.node? child = some (.variable name)) ∧
            ∀ source, right = some source → ∃ value, (forest.tryValue source).1 = .ok value) ∧
    ((∃ after, forest.setParent child (some target) = .ok after) ↔
      (∀ members, forest.node? child ≠ some (.group members)) ∧
        ((∃ members, forest.node? target = some (.group members)) ∨
          (∃ operator right, forest.node? target = some (.binary operator none right)) ∧
            (∃ after, forest.setLeft target (some child) = .ok after) ∨
          (∃ operator left, forest.node? target = some (.binary operator (some left) none)) ∧
            ∃ after, forest.setRight target (some child) = .ok after)) ∧
    (forest.setRight target (some child) = .error .cycle ↔ forest.ClosesCycle target child) ∧
    (forest.setParent child (some target) = .error .cycle ↔ forest.ClosesCycle target child) ∧
    (forest.Plain target →
      (forest.setLeft target (some child) = .error .cycle ↔ forest.ClosesCycle target child)) := by
  have linked := reachable.linked
  obtain ⟨lower, below⟩ := isLive_iff.mp live
  have single_iff : (∀ members, forest.node? child ≠ some (.group members)) ↔
      ∃ lower, forest.node? child = some lower ∧ lower.isGroup = false := by
    simp only [below, Option.some.injEq, exists_eq_left']
    cases lower <;> simp [Node.isGroup]
  -- Each operation has been inverted above; what is left is the wording for assignments.
  refine ⟨?_, ?_, ?_, ?_, linked.setRight_eq_cycle_iff, linked.setParent_eq_cycle_iff,
    linked.setLeft_eq_cycle_iff⟩
  · rw [single_iff]
    simp only [linked.groupPush_eq_ok_iff, exists_and_left, exists_eq, and_true]
  · constructor
    · rintro ⟨after, done⟩
      obtain ⟨admits, ⟨-, value, valued, -⟩ | ⟨plain, -⟩⟩ := linked.setRight_eq_ok_iff.mp done
      · exact ⟨admits, fun _ _ _ => ⟨value, valued⟩⟩
      · exact ⟨admits, fun left right assignment => absurd assignment (plain left right)⟩
    · rintro ⟨admits, valued⟩
      by_cases plain : forest.Plain target
      · exact ⟨_, linked.setRight_eq_ok_iff.mpr ⟨admits, .inr ⟨plain, rfl⟩⟩⟩
      · simp only [Plain, not_forall, not_not] at plain
        obtain ⟨left, right, assignment⟩ := plain
        obtain ⟨value, valued⟩ := valued left right assignment
        exact ⟨_, linked.setRight_eq_ok_iff.mpr
          ⟨admits, .inl ⟨⟨left, right, assignment⟩, value, valued, rfl⟩⟩⟩
  · constructor
    · rintro ⟨after, done⟩
      obtain ⟨admits, ⟨left, right, assignment, named, value, valued, -⟩ | ⟨plain, -⟩⟩ :=
        linked.setLeft_eq_ok_iff.mp done
      · refine ⟨admits, fun left' right' assignment' => ⟨named, fun source same => ?_⟩⟩
        cases assignment.symm.trans assignment'
        subst same
        exact ⟨value, valued⟩
      · exact ⟨admits, fun left right assignment => absurd assignment (plain left right)⟩
    · rintro ⟨admits, fitting⟩
      by_cases plain : forest.Plain target
      · exact ⟨_, linked.setLeft_eq_ok_iff.mpr ⟨admits, .inr ⟨plain, rfl⟩⟩⟩
      · simp only [Plain, not_forall, not_not] at plain
        obtain ⟨left, right, assignment⟩ := plain
        obtain ⟨named, valued⟩ := fitting left right assignment
        have valued : ∃ value, (forest.assignedValue right).1 = .ok value := by
          cases right with
          | none => exact ⟨none, rfl⟩
          | some source => exact valued source rfl
        obtain ⟨value, valued⟩ := valued
        exact ⟨_, linked.setLeft_eq_ok_iff.mpr
          ⟨admits, .inl ⟨left, right, assignment, named, value, valued, rfl⟩⟩⟩
  · rw [single_iff]
    simp only [linked.setParent_eq_ok_iff, exists_and_left, exists_or]
    refine and_congr_right fun single => or_congr_left (and_iff_left_of_imp fun located => ?_)
    exact ⟨_, linked.groupPush_eq_ok_iff.mpr ⟨located, single, rfl⟩⟩

/-- An assignment without a source does not take a division by zero, neither on its right nor
as a child; and the division does not take itself. -/
theorem Reachable.attachment_iff_division :
    let forest := (⟨.empty, .empty⟩ : Forest).run
      [.constant (.int 1), .constant (.int 0), .binary .divide (some ⟨0, 0⟩) (some ⟨1, 0⟩),
        .variable "x" none, .binary .assign (some ⟨3, 0⟩) none]
    forest.Reachable ∧ forest.isLive ⟨2, 0⟩ = true ∧ forest.Admits ⟨4, 0⟩ ⟨2, 0⟩ ∧
      (¬∃ after, forest.setRight ⟨4, 0⟩ (some ⟨2, 0⟩) = .ok after) ∧
      (¬∃ after, forest.setParent ⟨2, 0⟩ (some ⟨4, 0⟩) = .ok after) ∧
      forest.setParent ⟨2, 0⟩ (some ⟨2, 0⟩) = .error .cycle := by
  intro forest
  have reachable : forest.Reachable := ⟨_, _, rfl⟩
  have live : forest.isLive ⟨2, 0⟩ = true := by decide +kernel
  have assignment : forest.node? ⟨4, 0⟩ = some (.binary .assign (some ⟨3, 0⟩) none) := by
    decide +kernel
  have division : forest.node? ⟨2, 0⟩ =
      some (.binary .divide (some ⟨0, 0⟩) (some ⟨1, 0⟩)) := by decide +kernel
  have failed : (forest.tryValue ⟨2, 0⟩).1 = .error .divisionByZero := by decide +kernel
  have apart : forest.contains ⟨2, 0⟩ ⟨4, 0⟩ = false := by decide +kernel
  have admits : forest.Admits ⟨4, 0⟩ ⟨2, 0⟩ := by
    refine ⟨⟨_, _, _, assignment⟩, ⟨_, division, rfl, rfl⟩, fun below => ?_⟩
    cases apart.symm.trans (reachable.linked.contains_iff.mpr below)
  obtain ⟨-, setRight, -, setParent, -⟩ := reachable.attachment_iff live ⟨4, 0⟩
  obtain ⟨-, -, -, -, -, cycle, -⟩ := reachable.attachment_iff live ⟨2, 0⟩
  have refused : ¬∃ after, forest.setRight ⟨4, 0⟩ (some ⟨2, 0⟩) = .ok after := by
    intro done
    obtain ⟨value, valued⟩ := (setRight.mp done).2 _ _ assignment
    cases failed.symm.trans valued
  refine ⟨reachable, live, admits, refused, fun done => ?_, cycle.mpr ?_⟩
  · obtain ⟨-, ⟨members, group⟩ | ⟨⟨_, _, vacant⟩, -⟩ | ⟨-, done⟩⟩ := setParent.mp done
    · cases assignment.symm.trans group
    · cases assignment.symm.trans vacant
    · exact refused done
  · exact ⟨⟨_, _, _, division⟩, ⟨_, _, _, division, by decide⟩, .refl⟩

end Forest

end Worksheet
