import Worksheet.Proofs.Expr.Faults
import Worksheet.Proofs.Forest.Adoption

/-!
# Missing values

An evaluation goes through the parts of a tree from left to right, operands before their
operator, and the first part that fails decides what comes of it.  So a missing value shows as
such, unless an operator is refused before the evaluation gets there.
-/

namespace Worksheet

namespace Tree

/-! ### The parts of a tree -/

/-- The parts an evaluation goes through.  The target of an assignment is not among them, nor
is the assignment itself; and of an operator that lacks an operand the other one is not. -/
def parts : Tree → List Tree
  | .binary id operator left right =>
      if left.isVacant || right.isVacant then [.binary id operator left right]
      else if operator = .assign then right.parts
      else left.parts ++ right.parts ++ [.binary id operator left right]
  | tree => [tree]

/-- Whether the part itself lacks what a value needs, whatever there is to its left. -/
def lacks (table : Variables) : Tree → Bool
  | .vacant | .lost _ => true
  | .constant _ _ => false
  | .variable _ name => (table.value? name).isNone
  | .binary _ _ left right => left.isVacant || right.isVacant

/-- Both operands of the part have values, to which its operator cannot be applied. -/
def Refuses (table : Variables) (fault : Fault) : Tree → Prop
  | .binary _ operator left right => ∃ first second,
      (left.evaluate table).1 = .ok first ∧ (right.evaluate table).1 = .ok second ∧
        Number.operate operator first second = .error fault
  | _ => False

def faultOf : Except Fault Number → Option Fault
  | .ok _ => none
  | .error fault => some fault

theorem eq_error_of_faultOf {outcome : Except Fault Number} {fault : Fault}
    (failed : faultOf outcome = some fault) : outcome = .error fault := by
  cases outcome with
  | ok value => cases failed
  | error cause =>
      cases failed
      rfl

/-- The fault of the part itself, once all that comes before it has a value. -/
def fault? (table : Variables) : Tree → Option Fault
  | .vacant => some .noValue
  | .lost id => some (.removed id)
  | .constant _ _ => none
  | .variable _ name => if (table.value? name).isNone then some .noValue else none
  | .binary _ operator left right =>
      if left.isVacant || right.isVacant then some .noValue
      else match (left.evaluate table).1, (right.evaluate table).1 with
        | .ok first, .ok second => faultOf (Number.operate operator first second)
        | _, _ => none

variable {tree part : Tree} {table : Variables} {fault : Fault}

theorem hasValue_binary (id : Handle) (operator : Operator) (left right : Tree)
    (table : Variables) :
    (binary id operator left right).hasValue table =
      ((if operator = .assign then !left.isVacant else left.hasValue table) &&
        right.hasValue table) := by
  cases operator <;> rfl

theorem hasValue_of_isVacant (vacant : tree.isVacant = true) : tree.hasValue table = false := by
  cases tree with
  | vacant => rfl
  | _ => cases vacant

theorem hasValue_eq_all (tree : Tree) (table : Variables) :
    tree.hasValue table = tree.parts.all fun part => !part.lacks table := by
  induction tree with
  | «variable» id name => simp [hasValue, parts, lacks, Option.not_isNone]
  | binary id operator left right leftHypothesis rightHypothesis =>
      rw [hasValue_binary, parts]
      by_cases lacking : (left.isVacant || right.isVacant) = true
      · rw [if_pos lacking]
        rcases Bool.or_eq_true_iff.mp lacking with vacant | vacant
        · simp [lacks, vacant, hasValue_of_isVacant vacant]
        · simp [lacks, vacant, hasValue_of_isVacant vacant]
      · rw [if_neg lacking]
        rw [Bool.or_eq_true, not_or, Bool.not_eq_true, Bool.not_eq_true] at lacking
        by_cases set : operator = .assign
        · simp [set, lacking, rightHypothesis]
        · simp [lacks, set, lacking, leftHypothesis, rightHypothesis]
  | _ => rfl

theorem mem_parts_binary {id : Handle} {operator : Operator} {left right : Tree}
    (inside : part ∈ (binary id operator left right).parts) :
    part = binary id operator left right ∨ part ∈ left.parts ∨ part ∈ right.parts := by
  rw [parts] at inside
  split at inside
  next => exact .inl (List.mem_singleton.mp inside)
  next =>
    split at inside
    next => exact .inr (.inr inside)
    next =>
      rw [List.mem_append, List.mem_append, List.mem_singleton] at inside
      exact inside.elim .inr .inl

theorem fault?_of_lacks (lacking : part.lacks table = true) :
    part.fault? table = some .noValue ∨ ∃ id, part = .lost id := by
  cases part with
  | vacant => exact .inl rfl
  | lost id => exact .inr ⟨id, rfl⟩
  | constant id value => cases lacking
  | «variable» id name => exact .inl (if_pos lacking)
  | binary id operator left right => exact .inl (if_pos lacking)

theorem refuses_of_fault? (failed : part.fault? table = some fault)
    (whole : part.lacks table = false) : part.Refuses table fault := by
  cases part with
  | vacant => cases whole
  | lost id => cases whole
  | constant id value => cases failed
  | «variable» id name =>
      rw [lacks] at whole
      rw [fault?, if_neg (by rw [whole]; exact Bool.false_ne_true)] at failed
      cases failed
  | binary id operator left right =>
      rw [lacks] at whole
      rw [fault?, if_neg (by rw [whole]; exact Bool.false_ne_true)] at failed
      split at failed
      next first second leftDone rightDone =>
        refine ⟨first, second, leftDone, rightDone, ?_⟩
        cases applied : Number.operate operator first second with
        | ok value =>
            rw [applied] at failed
            cases failed
        | error cause =>
            rw [applied] at failed
            cases failed
            rfl
      next => cases failed

theorem isVacant_eq_false_of_evaluate {value : Number}
    (done : (tree.evaluate table).1 = .ok value) : tree.isVacant = false := by
  cases tree with
  | vacant => cases done
  | _ => rfl

theorem Refuses.fault?_eq (refused : part.Refuses table fault) :
    part.fault? table = some fault := by
  cases part with
  | binary id operator left right =>
      obtain ⟨first, second, leftDone, rightDone, failed⟩ := refused
      have full : ¬(left.isVacant || right.isVacant) = true := by
        rw [isVacant_eq_false_of_evaluate leftDone, isVacant_eq_false_of_evaluate rightDone]
        exact Bool.false_ne_true
      rw [fault?, if_neg full, leftDone, rightDone]
      dsimp only
      rw [failed, faultOf]
  | _ => cases refused

theorem whole_of_fault?_eq_none (fine : part.fault? table = none) :
    part.lacks table = false ∧ ∀ fault, ¬part.Refuses table fault := by
  constructor
  · rw [← Bool.not_eq_true]
    intro lacking
    rcases fault?_of_lacks lacking with failed | ⟨id, rfl⟩
    · cases fine.symm.trans failed
    · cases fine
  · intro fault refused
    cases fine.symm.trans refused.fault?_eq

theorem Refuses.ne_noValue (refused : part.Refuses table fault) : fault ≠ .noValue := by
  cases part with
  | binary id operator left right =>
      obtain ⟨first, second, -, -, failed⟩ := refused
      rintro rfl
      rcases Number.fault_of_operate_cases failed with same | same
      · cases same
      · cases same
  | _ => cases refused

/-- Where a value is missing, some part is the first to fail, if all parts are there: for
want of something, or by the refusal of an operator. -/
theorem exists_failing_part (missing : tree.hasValue table = false)
    (there : ∀ part ∈ tree.parts, ∀ id, part ≠ .lost id) :
    ∃ before part after fault, tree.parts = before ++ part :: after ∧
      (∀ earlier ∈ before, earlier.lacks table = false ∧ ∀ fault, ¬earlier.Refuses table fault) ∧
      tree.parts.findSome? (fault? table) = some fault ∧
      (part.lacks table = true ∧ fault = .noValue ∨
        part.Refuses table fault ∧ fault ≠ .noValue) := by
  rw [hasValue_eq_all, List.all_eq_false] at missing
  obtain ⟨lacking, inside, lacks⟩ := missing
  rw [Bool.not_eq_true, Bool.not_eq_false'] at lacks
  have failed := (fault?_of_lacks lacks).resolve_right fun ⟨id, same⟩ => there _ inside id same
  obtain ⟨fault, found⟩ : ∃ fault, tree.parts.findSome? (fault? table) = some fault := by
    rw [← Option.isSome_iff_exists, List.findSome?_isSome_iff]
    exact ⟨lacking, inside, by rw [failed, Option.isSome_some]⟩
  obtain ⟨before, part, after, split, first, fine⟩ := List.findSome?_eq_some_iff.mp found
  have within : part ∈ tree.parts := by
    rw [split]
    exact List.mem_append_right _ List.mem_cons_self
  refine ⟨before, part, after, fault, split,
    fun earlier member => whole_of_fault?_eq_none (fine earlier member), found, ?_⟩
  cases lack : part.lacks table with
  | true =>
      have same := (fault?_of_lacks lack).resolve_right fun ⟨id, same⟩ => there _ within id same
      exact .inl ⟨rfl, Option.some.inj (first.symm.trans same)⟩
  | false =>
      have refused := refuses_of_fault? first lack
      exact .inr ⟨refused, refused.ne_noValue⟩

/-! ### The order of an evaluation -/

/-- An evaluation without assignments fails with the first part that fails. -/
theorem faultOf_evaluate (plain : tree.isPlain = true) (table : Variables) :
    faultOf (tree.evaluate table).1 = tree.parts.findSome? (fault? table) := by
  induction tree with
  | «variable» id name =>
      change faultOf ((«variable» id name).evaluate table).1 =
        [«variable» id name].findSome? (fault? table)
      rw [evaluate, List.findSome?_singleton, fault?]
      cases table.value? name <;> rfl
  | binary id operator left right leftHypothesis rightHypothesis =>
      simp only [isPlain, Bool.and_eq_true, decide_eq_true_eq] at plain
      obtain ⟨⟨other, leftPlain⟩, rightPlain⟩ := plain
      obtain ⟨first, leftDone⟩ := evaluate_of_isPlain leftPlain table
      obtain ⟨second, rightDone⟩ := evaluate_of_isPlain rightPlain table
      have leftFault := leftHypothesis leftPlain
      have rightFault := rightHypothesis rightPlain
      rw [leftDone] at leftFault
      rw [rightDone] at rightFault
      rw [evaluate, parts]
      by_cases lacking : (left.isVacant || right.isVacant) = true
      · rw [if_pos lacking, if_pos lacking, List.findSome?_singleton, fault?, if_pos lacking]
        rfl
      · rw [if_neg lacking, if_neg other, if_neg lacking, if_neg other, List.findSome?_append,
          List.findSome?_append, ← leftFault, ← rightFault, leftDone]
        cases first with
        | error cause => rfl
        | ok first =>
            dsimp only
            rw [rightDone]
            cases second with
            | error cause => rfl
            | ok second =>
                rw [List.findSome?_singleton, fault?, if_neg lacking, leftDone, rightDone]
                rfl
  | _ => rfl

/-- The same with an assignment at the root, which stores nothing if it fails. -/
theorem faultOf_evaluate_assignment {source : Tree} (plain : source.isPlain = true) (id : Handle)
    (target : Tree) (table : Variables) :
    faultOf ((binary id .assign target source).evaluate table).1 =
        (binary id .assign target source).parts.findSome? (fault? table) ∧
      (((binary id .assign target source).evaluate table).2 = table ∨
        faultOf ((binary id .assign target source).evaluate table).1 = none) := by
  obtain ⟨result, done⟩ := evaluate_of_isPlain plain table
  have sourceFault := faultOf_evaluate plain table
  rw [done] at sourceFault
  rw [evaluate, parts]
  by_cases lacking : (target.isVacant || source.isVacant) = true
  · rw [if_pos lacking, if_pos lacking, List.findSome?_singleton, fault?, if_pos lacking]
    exact ⟨rfl, .inl rfl⟩
  · rw [if_neg lacking, if_pos rfl, if_neg lacking, if_pos rfl, ← sourceFault, done]
    cases result with
    | error cause => exact ⟨rfl, .inl rfl⟩
    | ok value => exact ⟨rfl, .inr rfl⟩

end Tree

/-! ### Nodes without a value -/

namespace Forest

variable {forest : Forest} {node : Handle} {content : Node}

/-- A live node's evaluation fails with the first part that fails, and stores nothing then. -/
theorem Linked.faultOf_evaluate (linked : forest.Linked) (node : Handle) :
    Tree.faultOf ((forest.tree node).evaluate forest.table).1 =
        (forest.tree node).parts.findSome? (Tree.fault? forest.table) ∧
      (((forest.tree node).evaluate forest.table).2 = forest.table ∨
        Tree.faultOf ((forest.tree node).evaluate forest.table).1 = none) := by
  by_cases plain : forest.Plain node
  · have bare := linked.isPlain_tree plain
    obtain ⟨result, done⟩ := Tree.evaluate_of_isPlain bare forest.table
    exact ⟨Tree.faultOf_evaluate bare forest.table, .inl (by rw [done])⟩
  · simp only [Plain, not_forall, not_not] at plain
    obtain ⟨target, source, located⟩ := plain
    rw [linked.tree_eq, located, Tree.ofNode]
    exact Tree.faultOf_evaluate_assignment (linked.isPlain_ofOperand located) node _ forest.table

theorem Linked.ne_lost_of_mem_parts (linked : forest.Linked) (node : Handle)
    (located : forest.node? node = some content) (single : content.isGroup = false)
    {part : Tree} (inside : part ∈ (forest.tree node).parts) (id : Handle) : part ≠ .lost id := by
  induction node using linked.tree_induction generalizing content with
  | _ node inductionHypothesis =>
    rw [linked.tree_eq, located] at inside
    cases content with
    | constant value =>
        rintro rfl
        cases List.mem_singleton.mp inside
    | «variable» name =>
        rintro rfl
        cases List.mem_singleton.mp inside
    | group members => cases single
    | binary operator left right =>
        have operand (child : Option Handle)
            (below : ∀ low, child = some low → low ∈ (Node.binary operator left right).children)
            (within : part ∈ (Tree.ofOperand forest.tree child).parts) : part ≠ .lost id := by
          cases child with
          | none =>
              rintro rfl
              cases List.mem_singleton.mp within
          | some low =>
              have down : forest.IsChild low node := ⟨_, located, below low rfl⟩
              have above := linked.parent?_of_child low node down
              obtain ⟨lower, found⟩ := parent?_eq_some_iff.mp above
              have placed := node?_eq_some_iff.mpr ⟨_, found⟩
              have single : lower.isGroup = false := by
                cases lower with
                | group members => exact absurd placed (linked.child_not_group down members)
                | _ => rfl
              exact inductionHypothesis low down placed single within
        rcases Tree.mem_parts_binary inside with rfl | inLeft | inRight
        · rintro ⟨⟩
        · exact operand left (fun low same => by simp [Node.children, same]) inLeft
        · exact operand right (fun low same => by simp [Node.children, same]) inRight

/-- A live node without a value is evaluated up to the first part that fails, by which the fault is
told, and nothing is stored. -/
theorem Reachable.value_of_missing (reachable : forest.Reachable)
    (located : forest.node? node = some content) (missing : forest.hasValue node = false) :
    (forest.value node).2 = forest ∧ forest.tryValue node = (.ok none, forest) ∧
      ∃ before part after, (forest.tree node).parts = before ++ part :: after ∧
        (∀ earlier ∈ before, earlier.lacks forest.table = false ∧
          ∀ fault, ¬earlier.Refuses forest.table fault) ∧
        (part.lacks forest.table = true ∧ (forest.value node).1 = .error .noValue ∨
          ∃ fault, part.Refuses forest.table fault ∧ fault ≠ .noValue ∧
            (forest.value node).1 = .error fault) := by
  have linked := reachable.linked
  have unasked : forest.tryValue node = (.ok none, forest) := by
    rw [tryValue, missing, if_neg Bool.false_ne_true]
  cases isGroup : content.isGroup with
  | true =>
      obtain ⟨members, rfl⟩ := Node.isGroup_eq_true_iff.mp isGroup
      have done : forest.value node = (.error .noValue, forest) := by
        rw [value, located]
        dsimp only
        rw [missing, if_neg Bool.false_ne_true]
      have alone : forest.tree node = .lost node := by
        rw [linked.tree_eq, located, Tree.ofNode]
      rw [done, alone]
      exact ⟨rfl, unasked, [], .lost node, [], rfl, by simp, .inl ⟨rfl, rfl⟩⟩
  | false =>
      have unvalued : (forest.tree node).hasValue forest.table = false := by
        rw [hasValue, trees_of_not_group located isGroup, List.all_cons, List.all_nil,
          Bool.and_true] at missing
        exact missing
      obtain ⟨before, part, after, fault, split, fine, first, failing⟩ :=
        Tree.exists_failing_part unvalued fun part inside =>
          linked.ne_lost_of_mem_parts node located isGroup inside
      obtain ⟨failed, stored⟩ := linked.faultOf_evaluate node
      have done := Tree.eq_error_of_faultOf (failed.trans first)
      have same := stored.resolve_right fun none => by cases (failed.trans first).symm.trans none
      rw [value_of_not_group located isGroup, done, same]
      refine ⟨rfl, unasked, before, part, after, split, fine, failing.imp ?_ ?_⟩
      · rintro ⟨lacks, rfl⟩
        exact ⟨lacks, rfl⟩
      · rintro ⟨refused, other⟩
        exact ⟨fault, refused, other, rfl⟩

/-- A missing value shows before a division by zero to the right of it. -/
theorem Reachable.value_of_missing_addend :
    let forest := (⟨.empty, .empty⟩ : Forest).run
      [.variable "b" none, .constant (.int 1), .constant (.int 0),
        .binary .divide (some ⟨1, 0⟩) (some ⟨2, 0⟩), .binary .add (some ⟨0, 0⟩) (some ⟨3, 0⟩)]
    forest.Reachable ∧ forest.node? ⟨4, 0⟩ = some (.binary .add (some ⟨0, 0⟩) (some ⟨3, 0⟩)) ∧
      forest.hasValue ⟨4, 0⟩ = false ∧ forest.value ⟨4, 0⟩ = (.error .noValue, forest) ∧
      forest.tryValue ⟨4, 0⟩ = (.ok none, forest) ∧
      ∃ before part after, (forest.tree ⟨4, 0⟩).parts = before ++ part :: after ∧
        (∀ earlier ∈ before, earlier.lacks forest.table = false ∧
          ∀ fault, ¬earlier.Refuses forest.table fault) ∧
        part.lacks forest.table = true := by
  intro forest
  have reachable : forest.Reachable := ⟨_, _, rfl⟩
  have evaluated : forest.node? ⟨4, 0⟩ = some (.binary .add (some ⟨0, 0⟩) (some ⟨3, 0⟩)) ∧
      forest.hasValue ⟨4, 0⟩ = false ∧ (forest.value ⟨4, 0⟩).1 = .error .noValue := by
    decide +kernel
  obtain ⟨located, missing, done⟩ := evaluated
  obtain ⟨same, unasked, before, part, after, split, fine, failing⟩ :=
    value_of_missing reachable located missing
  rcases failing with ⟨lacks, -⟩ | ⟨fault, -, other, refused⟩
  · exact ⟨reachable, located, missing, Prod.ext done same, unasked, before, part, after, split,
      fine, lacks⟩
  · cases done.symm.trans refused
    exact absurd rfl other

/-- A division by zero to the left of a missing value hides it. -/
theorem missing_value_hidden :
    let forest := (⟨.empty, .empty⟩ : Forest).run
      [.constant (.int 1), .constant (.int 0), .binary .divide (some ⟨0, 0⟩) (some ⟨1, 0⟩),
        .variable "b" none, .binary .add (some ⟨2, 0⟩) (some ⟨3, 0⟩)]
    forest.Reachable ∧ forest.node? ⟨4, 0⟩ = some (.binary .add (some ⟨2, 0⟩) (some ⟨3, 0⟩)) ∧
      forest.hasValue ⟨4, 0⟩ = false ∧ (forest.value ⟨4, 0⟩).1 = .error .divisionByZero := by
  intro forest
  exact ⟨⟨_, _, rfl⟩, by decide +kernel, by decide +kernel, by decide +kernel⟩

end Forest

end Worksheet
