import Worksheet.Proofs.Expr.Replay
import Worksheet.Proofs.Forest.Grafting

/-!
# Values of nodes

The value of a node is that of its expression, or of the source if the expression assigns.
Looking for it stores the value of an assignment, and changes nothing else.
-/

namespace Worksheet

open Grammar

namespace Expr

/-- What is evaluated: the source of an assignment, or else the expression itself. -/
def source : Expr → Expr
  | .binary .assign (.variable _) source => source
  | expr => expr

variable {expr : Expr}

theorem target?_of_isPlain (plain : expr.isPlain = true) : expr.target? = none := by
  unfold target?
  split
  next => cases plain
  next => rfl

theorem source_of_isPlain (plain : expr.isPlain = true) : expr.source = expr := by
  unfold source
  split
  next => cases plain
  next => rfl

theorem mem_names_of_target? {name : String} (target : expr.target? = some name) :
    name ∈ expr.names := by
  unfold target? at target
  split at target
  next =>
    cases target
    exact List.mem_cons_self
  next => cases target

theorem constants_source_subset (expr : Expr) : expr.source.constants ⊆ expr.constants := by
  unfold source
  split
  next => exact fun value member => List.mem_append_right _ member
  next => exact List.Subset.refl _

end Expr

/-- The variables after an expression has been evaluated. -/
def Variables.evaluated (table : Variables) (expr : Expr) : Variables :=
  match expr.target?, expr.source.evaluate table with
  | some name, .ok value => table.set name value
  | _, _ => table

namespace Variables

variable {kind : Kind} {table : Variables} {expr : Expr}

theorem evaluated_cases (table : Variables) (expr : Expr) :
    table.evaluated expr = table ∨ ∃ name value, expr.target? = some name ∧
      expr.source.evaluate table = .ok value ∧ table.evaluated expr = table.set name value := by
  rw [evaluated]
  split
  next name value target done => exact .inr ⟨name, value, target, done, rfl⟩
  next => exact .inl rfl

theorem Sound.evaluated (sound : table.Sound kind) (readable : expr.Readable kind) :
    (table.evaluated expr).Sound kind := by
  obtain same | ⟨name, value, target, done, same⟩ := table.evaluated_cases expr
  · rwa [same]
  · rw [same]
    refine sound.put (readable.isName_names name (Expr.mem_names_of_target? target)) ?_
    intro number found
    cases found
    exact Expr.kind_of_evaluate sound
      (fun constant member => readable.kind_constants constant (expr.constants_source_subset member))
      done

theorem isRegistered_evaluated {name : String} (registered : table.isRegistered name = true) :
    (table.evaluated expr).isRegistered name = true := by
  obtain same | ⟨target, value, -, -, same⟩ := table.evaluated_cases expr
  · rwa [same]
  · rw [same, set, isRegistered, find?_put]
    split
    next => rfl
    next => exact registered

end Variables

namespace Tree

variable {tree : Tree} {expr : Expr}

theorem exists_of_expr?_assignment {name : String} {source : Expr}
    (found : tree.expr? = some (.binary .assign (.variable name) source)) :
    ∃ id target value, tree = .binary id .assign (.variable target name) value ∧
      value.expr? = some source := by
  cases tree with
  | binary id operator left right =>
      obtain ⟨target, value, leftFound, rightFound, same⟩ := expr?_binary_eq_some_iff.mp found
      cases same
      cases left with
      | «variable» target other =>
          cases leftFound
          exact ⟨id, target, right, rfl, rightFound⟩
      | binary _ _ _ _ =>
          obtain ⟨_, _, -, -, impossible⟩ := expr?_binary_eq_some_iff.mp leftFound
          cases impossible
      | _ => cases leftFound
  | _ => cases found

theorem evaluate_of_isLawful (found : tree.expr? = some expr) (lawful : expr.isLawful = true)
    (table : Variables) :
    tree.evaluate table = (expr.source.evaluate table, table.evaluated expr) := by
  by_cases plain : expr.isPlain = true
  · rw [evaluate_of_expr? found plain, Expr.source_of_isPlain plain, Variables.evaluated,
      Expr.target?_of_isPlain plain]
  · obtain ⟨name, source, rfl, free⟩ := Expr.assignment_of_isLawful lawful plain
    obtain ⟨id, target, value, rfl, rightFound⟩ := exists_of_expr?_assignment found
    have done := evaluate_of_expr? rightFound free table
    have set : (Tree.variable target name).isVacant = false := rfl
    rw [evaluate, set, isVacant_of_expr? rightFound, done, if_neg (by simp), if_pos rfl,
      Variables.evaluated, Expr.target?, Expr.source]
    cases source.evaluate table <;> rfl

theorem hasValue_of_isLawful (found : tree.expr? = some expr) (lawful : expr.isLawful = true)
    (table : Variables) : tree.hasValue table = expr.source.hasValue table := by
  by_cases plain : expr.isPlain = true
  · rw [hasValue_of_expr? found plain, Expr.source_of_isPlain plain]
  · obtain ⟨name, source, rfl, free⟩ := Expr.assignment_of_isLawful lawful plain
    obtain ⟨id, target, value, rfl, rightFound⟩ := exists_of_expr?_assignment found
    rw [hasValue, hasValue_of_expr? rightFound free]
    rfl

end Tree

namespace Forest

variable {forest : Forest} {node : Handle} {expr : Expr}

theorem Linked.value_of_isLawful (linked : forest.Linked)
    (found : (forest.tree node).expr? = some expr) (lawful : expr.isLawful = true) :
    forest.value node = (expr.source.evaluate forest.table,
      { forest with table := forest.table.evaluated expr }) := by
  rw [linked.value_of_expr? found, Tree.evaluate_of_isLawful found lawful]

/-- A value is looked for only where there is one. -/
theorem Linked.tryValue_of_isLawful (linked : forest.Linked)
    (found : (forest.tree node).expr? = some expr) (lawful : expr.isLawful = true) :
    (forest.tryValue node).1 = expr.source.tryValue forest.table ∧
      ((forest.tryValue node).2 = forest ∨
        (forest.tryValue node).2 = { forest with table := forest.table.evaluated expr }) := by
  rw [Forest.tryValue, Forest.hasValue, linked.trees_of_expr? found, List.all_cons, List.all_nil,
    Bool.and_true, Tree.hasValue_of_isLawful found lawful, Expr.tryValue,
    linked.value_of_isLawful found lawful]
  split
  next => exact ⟨rfl, .inr rfl⟩
  next => exact ⟨rfl, .inl rfl⟩

end Forest

end Worksheet
