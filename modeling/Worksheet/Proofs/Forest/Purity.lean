import Worksheet.Proofs.Forest.Rendering

/-!
# Evaluation that stores nothing

Evaluation writes to the variables only where it meets an assignment.  Below an operator
there is none, so looking for the value of an operand leaves a linked forest as it is.
-/

namespace Worksheet

namespace Tree

def isPlain : Tree → Bool
  | .binary _ operator left right => operator ≠ .assign && left.isPlain && right.isPlain
  | _ => true

theorem evaluate_of_isPlain {tree : Tree} (plain : tree.isPlain = true) (table : Variables) :
    ∃ result, tree.evaluate table = (result, table) := by
  induction tree with
  | «variable» id name =>
      rw [evaluate]
      split <;> exact ⟨_, rfl⟩
  | binary id operator left right leftHypothesis rightHypothesis =>
      simp only [isPlain, Bool.and_eq_true, decide_eq_true_eq] at plain
      obtain ⟨⟨other, leftPlain⟩, rightPlain⟩ := plain
      obtain ⟨first, leftDone⟩ := leftHypothesis leftPlain
      obtain ⟨second, rightDone⟩ := rightHypothesis rightPlain
      rw [evaluate, if_neg other, leftDone]
      split
      next => exact ⟨_, rfl⟩
      next =>
        cases first with
        | error fault => exact ⟨_, rfl⟩
        | ok value =>
            dsimp only
            rw [rightDone]
            cases second <;> exact ⟨_, rfl⟩
  | _ => exact ⟨_, rfl⟩

end Tree

namespace Forest

variable {forest : Forest}

/-- The node is not an assignment. -/
def Plain (forest : Forest) (node : Handle) : Prop :=
  ∀ left right, forest.node? node ≠ some (.binary .assign left right)

theorem Linked.isPlain_tree (linked : forest.Linked) {node : Handle}
    (plain : forest.Plain node) : (forest.tree node).isPlain = true := by
  induction node using linked.tree_induction with
  | _ node inductionHypothesis =>
    rw [linked.tree_eq]
    cases located : forest.node? node with
    | none => rfl
    | some content =>
        cases content with
        | binary operator left right =>
            have other : operator ≠ .assign := by
              rintro rfl
              exact plain left right located
            have operand (child : Option Handle)
                (inside : ∀ id, child = some id → id ∈ (Node.binary operator left right).children) :
                (Tree.ofOperand forest.tree child).isPlain = true := by
              cases child with
              | none => rfl
              | some id =>
                  exact inductionHypothesis id ⟨_, located, inside id rfl⟩
                    (linked.not_assignment_of_operand located (inside id rfl))
            have first := operand left fun id same => by simp [Node.children, same]
            have second := operand right fun id same => by simp [Node.children, same]
            simp [Tree.ofNode, Tree.isPlain, other, first, second]
        | _ => rfl

theorem Linked.value_of_plain (linked : forest.Linked) {node : Handle}
    (plain : forest.Plain node) : (forest.value node).2 = forest := by
  rw [value]
  split
  next => rfl
  next =>
    obtain ⟨result, done⟩ := Tree.evaluate_of_isPlain (linked.isPlain_tree plain) forest.table
    rw [done]

theorem Linked.tryValue_of_plain (linked : forest.Linked) {node : Handle}
    (plain : forest.Plain node) : (forest.tryValue node).2 = forest := by
  rw [tryValue]
  split
  next => exact linked.value_of_plain plain
  next => rfl

theorem Linked.assignedValue_of_plain (linked : forest.Linked) {right : Option Handle}
    (plain : ∀ node, right = some node → forest.Plain node) :
    ∃ value, forest.assignedValue right = (value, forest) := by
  cases right with
  | none => exact ⟨_, rfl⟩
  | some node => exact ⟨_, Prod.ext rfl (linked.tryValue_of_plain (plain node rfl))⟩

theorem Linked.plain_of_checkChild (linked : forest.Linked) {binary child : Handle}
    {operator : Operator} (found : forest.operator binary = .ok operator)
    (checked : forest.checkChild binary child = .ok ()) : forest.Plain child := by
  obtain ⟨content, located, isBinary⟩ := operator_eq_ok_iff.mp found
  obtain ⟨upper, lower, above, below, allowed, -⟩ := linked.checkChild_eq_ok_iff.mp checked
  cases located.symm.trans above
  intro left right assignment
  cases below.symm.trans assignment
  cases isBinary.symm.trans ((Node.misplacement?_eq_none_iff.mp allowed).2.2 rfl)

/-- What has been found fit to be an operand of a new node was no assignment before. -/
theorem Linked.plain_of_checkChild_allocate (linked : forest.Linked) {operator : Operator}
    {child : Handle}
    (checked : (forest.allocate (.binary operator none none)).2.checkChild
      (forest.allocate (.binary operator none none)).1 child = .ok ()) : forest.Plain child := by
  have made : (forest.allocate (.binary operator none none)).2.Linked := linked.allocate rfl
  have located := node?_allocate_self linked.formed (.binary operator none none)
  have plain := made.plain_of_checkChild (operator_eq_ok_iff.mpr ⟨_, located, rfl⟩) checked
  exact fun left right assignment =>
    plain left right (node?_allocate_of_live linked.formed _ assignment)

/-- The right operand of an assignment is not an assignment itself. -/
theorem Linked.plain_of_right (linked : forest.Linked) {binary child : Handle}
    (found : forest.right binary = .ok (some child)) : forest.Plain child := by
  rw [right, operands] at found
  split at found
  next operator left right located =>
    cases found
    exact linked.not_assignment_of_operand located (by simp [Node.children])
  next => cases found
  next => cases found

end Forest

end Worksheet
