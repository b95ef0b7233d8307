import Worksheet.Proofs.Expr.Written
import Worksheet.Proofs.Forest.Operation

/-!
# Renderings are read back

In a linked forest the tree behind a node is a lawful expression if every operand in it
is set, and it is rendered as the text of that expression.
-/

namespace Worksheet

open Grammar

namespace Tree

variable {tree : Tree} {expr : Expr}

theorem expr?_binary_eq_some_iff {id : Handle} {operator : Operator} {left right : Tree} :
    (binary id operator left right).expr? = some expr ↔
      ∃ first second, left.expr? = some first ∧ right.expr? = some second ∧
        expr = .binary operator first second := by
  simp only [expr?, Option.bind_eq_some_iff, Option.map_eq_some_iff]
  constructor
  · rintro ⟨first, leftFound, second, rightFound, rfl⟩
    exact ⟨first, second, leftFound, rightFound, rfl⟩
  · rintro ⟨first, second, leftFound, rightFound, rfl⟩
    exact ⟨first, leftFound, second, rightFound, rfl⟩

theorem isVacant_of_expr? (found : tree.expr? = some expr) : tree.isVacant = false := by
  cases tree with
  | vacant => cases found
  | _ => rfl

theorem operator?_of_expr? (found : tree.expr? = some expr) :
    tree.operator? = expr.operator? := by
  cases tree with
  | binary id operator left right =>
      obtain ⟨first, second, -, -, rfl⟩ := expr?_binary_eq_some_iff.mp found
      rfl
  | constant id value =>
      cases found
      rfl
  | «variable» id name =>
      cases found
      rfl
  | _ => cases found

theorem toList_enclosed (parentheses : Bool) (text : String) :
    (enclosed parentheses text).toList = Expr.enclosed parentheses text.toList := by
  cases parentheses with
  | true => simp [enclosed, Expr.enclosed]
  | false => rfl

/-- A tree without vacant operands is rendered as the text of its expression. -/
theorem toList_render (found : tree.expr? = some expr) : tree.render.toList = expr.written := by
  induction tree generalizing expr with
  | constant id value =>
      cases found
      rfl
  | «variable» id name =>
      cases found
      rfl
  | binary id operator left right leftHypothesis rightHypothesis =>
      obtain ⟨first, second, leftFound, rightFound, rfl⟩ := expr?_binary_eq_some_iff.mp found
      rw [render, isVacant_of_expr? leftFound, isVacant_of_expr? rightFound, Expr.written,
        ← leftHypothesis leftFound, ← rightHypothesis rightFound, operator?_of_expr? leftFound,
        operator?_of_expr? rightFound]
      simp [toList_enclosed, String.toList_append]
  | _ => cases found

theorem names_of_expr? (found : tree.expr? = some expr) : tree.names = expr.names := by
  induction tree generalizing expr with
  | constant id value =>
      cases found
      rfl
  | «variable» id name =>
      cases found
      rfl
  | binary id operator left right leftHypothesis rightHypothesis =>
      obtain ⟨first, second, leftFound, rightFound, rfl⟩ := expr?_binary_eq_some_iff.mp found
      rw [names, Expr.names, leftHypothesis leftFound, rightHypothesis rightFound]
  | _ => cases found

theorem constants_of_expr? (found : tree.expr? = some expr) : tree.constants = expr.constants := by
  induction tree generalizing expr with
  | constant id value =>
      cases found
      rfl
  | «variable» id name =>
      cases found
      rfl
  | binary id operator left right leftHypothesis rightHypothesis =>
      obtain ⟨first, second, leftFound, rightFound, rfl⟩ := expr?_binary_eq_some_iff.mp found
      rw [constants, Expr.constants, leftHypothesis leftFound, rightHypothesis rightFound]
  | _ => cases found

end Tree

namespace Forest

variable {forest : Forest}

theorem Linked.operands_of_expr? (linked : forest.Linked) {id : Handle} {operator : Operator}
    {left right : Option Handle} {expr : Expr}
    (located : forest.node? id = some (.binary operator left right))
    (found : (forest.tree id).expr? = some expr) :
    ∃ low high first second, left = some low ∧ right = some high ∧
      (forest.tree low).expr? = some first ∧ (forest.tree high).expr? = some second ∧
      expr = .binary operator first second := by
  rw [linked.tree_eq, located, Tree.ofNode] at found
  obtain ⟨first, second, leftFound, rightFound, rfl⟩ := Tree.expr?_binary_eq_some_iff.mp found
  cases left with
  | none => cases leftFound
  | some low =>
      cases right with
      | none => cases rightFound
      | some high => exact ⟨low, high, first, second, rfl, rfl, leftFound, rightFound, rfl⟩

theorem Linked.not_assignment_of_operand (linked : forest.Linked) {id child : Handle}
    {operator : Operator} {left right : Option Handle}
    (located : forest.node? id = some (.binary operator left right))
    (member : child ∈ (Node.binary operator left right).children) :
    ∀ first second, forest.node? child ≠ some (.binary .assign first second) := by
  intro first second assignment
  have above := linked.parent?_of_child child id ⟨_, located, member⟩
  obtain ⟨members, group⟩ := linked.assignment_parent? child first second id assignment above
  cases located.symm.trans group

theorem Linked.isPlain_of_expr? (linked : forest.Linked) {id : Handle} {expr : Expr}
    (other : ∀ left right, forest.node? id ≠ some (.binary .assign left right))
    (found : (forest.tree id).expr? = some expr) : expr.isPlain = true := by
  induction id using linked.tree_induction generalizing expr with
  | _ id inductionHypothesis =>
    cases located : forest.node? id with
    | none =>
        rw [linked.tree_eq, located] at found
        cases found
    | some node =>
        cases node with
        | binary operator left right =>
            obtain ⟨low, high, first, second, rfl, rfl, leftFound, rightFound, rfl⟩ :=
              linked.operands_of_expr? located found
            have plain : operator ≠ .assign := by
              rintro rfl
              exact other _ _ located
            have operand (child : Handle)
                (member : child ∈ (Node.binary operator (some low) (some high)).children)
                {expr : Expr} : (forest.tree child).expr? = some expr → expr.isPlain = true :=
              inductionHypothesis child ⟨_, located, member⟩
                (linked.not_assignment_of_operand located member)
            simp [Expr.isPlain, plain, operand low (by simp [Node.children]) leftFound,
              operand high (by simp [Node.children]) rightFound]
        | group members =>
            rw [linked.tree_eq, located] at found
            cases found
        | _ =>
            rw [linked.tree_eq, located] at found
            cases found
            rfl

theorem Linked.isLawful_of_expr? (linked : forest.Linked) {id : Handle} {expr : Expr}
    (found : (forest.tree id).expr? = some expr) : expr.isLawful = true := by
  by_cases assignment : ∃ left right, forest.node? id = some (.binary .assign left right)
  · obtain ⟨left, right, located⟩ := assignment
    obtain ⟨low, high, first, second, rfl, rfl, leftFound, rightFound, rfl⟩ :=
      linked.operands_of_expr? located found
    obtain ⟨name, target⟩ := linked.assignment_target id low (some high) located
    have operand (child : Handle)
        (member : child ∈ (Node.binary .assign (some low) (some high)).children) {expr : Expr} :
        (forest.tree child).expr? = some expr → expr.isPlain = true :=
      linked.isPlain_of_expr? (linked.not_assignment_of_operand located member)
    have named : first.isVariable = true := by
      rw [linked.tree_eq, target] at leftFound
      cases leftFound
      rfl
    simp [Expr.isLawful, named, operand low (by simp [Node.children]) leftFound,
      operand high (by simp [Node.children]) rightFound]
  · apply Expr.isLawful_of_isPlain
    apply linked.isPlain_of_expr? _ found
    intro left right located
    exact assignment ⟨left, right, located⟩

theorem Linked.toList_render (linked : forest.Linked) {id : Handle} {expr : Expr}
    (found : (forest.tree id).expr? = some expr) :
    (forest.render id).toList = expr.written := by
  rw [render]
  split
  next members located =>
    rw [linked.tree_eq, located] at found
    cases found
  next => exact Tree.toList_render found

/-- What is rendered for an expression of a forest is read back as the expression, with
quotients in place of the numbers that have no literal.  The names have to be names and
the numbers of the kind that is read. -/
theorem Reachable.read_render (reachable : forest.Reachable) (kind : Kind) (root : Handle)
    (expr : Expr) (whole : (forest.tree root).expr? = some expr)
    (named : ∀ name ∈ (forest.tree root).names, isName name.toList = true)
    (typed : ∀ value ∈ (forest.tree root).constants, value.kind = kind) :
    Expr.read kind (forest.render root).toList = .ok expr.spelled := by
  have linked := reachable.linked
  rw [Tree.names_of_expr? whole] at named
  rw [Tree.constants_of_expr? whole] at typed
  rw [linked.toList_render whole]
  exact Expr.read_written (linked.isLawful_of_expr? whole) ⟨named, typed⟩

/-- Of two differences and two powers, those that are not read from the left or from the
right keep their parentheses. -/
theorem Reachable.read_render_powers :
    let forest := (⟨.empty, .empty⟩ : Forest).run
      [.variable "x" none, .constant (.int (-2)), .constant (.int (-3)),
        .binary .subtract (some ⟨1, 0⟩) (some ⟨2, 0⟩), .variable "y" none, .constant (.int (-1)),
        .binary .power (some ⟨4, 0⟩) (some ⟨5, 0⟩),
        .binary .power (some ⟨3, 0⟩) (some ⟨6, 0⟩), .assignment ⟨0, 0⟩ ⟨7, 0⟩]
    forest.render ⟨8, 0⟩ = "x = (-2 - -3) ^ (y ^ -1)" ∧
      Expr.read .int (forest.render ⟨8, 0⟩).toList =
        .ok (.binary .assign (.variable "x") (.binary .power
          (.binary .subtract (.number (.int (-2))) (.number (.int (-3))))
          (.binary .power (.variable "y") (.number (.int (-1)))))) := by
  intro forest
  have whole : (forest.tree ⟨8, 0⟩).expr? = some (.binary .assign (.variable "x")
      (.binary .power (.binary .subtract (.number (.int (-2))) (.number (.int (-3))))
        (.binary .power (.variable "y") (.number (.int (-1)))))) := by
    unfold forest
    cbv
  refine ⟨?_, Reachable.read_render ⟨_, _, rfl⟩ .int ⟨8, 0⟩ _ whole ?_ ?_⟩
  · unfold forest
    cbv
  · rw [Tree.names_of_expr? whole]
    decide
  · rw [Tree.constants_of_expr? whole]
    decide

end Forest

end Worksheet
