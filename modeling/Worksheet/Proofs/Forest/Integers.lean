import Mathlib.Data.Option.NAry
import Worksheet.Proofs.Expr.Negation
import Worksheet.Proofs.Forest.Asking
import Worksheet.Proofs.Number.Integer

/-!
# Evaluation of integers

Among integers every operator computes modulo a power of two, and sums, differences,
products and powers respect that.  So the value of a tree of them is its exact value,
reduced once.  Only a division by zero is ever refused.
-/

namespace Worksheet

open Grammar

namespace Tree

variable {tree left right : Tree} {table : Variables} {operator : Operator} {id : Handle}

/-! ### What is evaluated -/

/-- The part that is evaluated: the right side of an assignment, or else all of the tree. -/
def source : Tree → Tree
  | .binary _ .assign _ right => right
  | tree => tree

theorem source_cases (tree : Tree) :
    tree.source = tree ∨ ∃ id target value, tree = .binary id .assign target value := by
  cases tree with
  | binary id operator left right =>
      cases operator with
      | assign => exact .inr ⟨id, left, right, rfl⟩
      | _ => exact .inl rfl
  | _ => exact .inl rfl

theorem isVacant_eq_false_of_hasValue (valued : tree.hasValue table = true) :
    tree.isVacant = false := by
  cases vacant : tree.isVacant with
  | false => rfl
  | true => exact absurd valued (by simp [hasValue_of_isVacant vacant])

theorem evaluate_binary (plain : (binary id operator left right).isPlain = true)
    (leftSet : left.isVacant = false) (rightSet : right.isVacant = false) :
    ((binary id operator left right).evaluate table).1 =
      (left.evaluate table).1.bind fun first =>
        (right.evaluate table).1.bind fun second => Number.operate operator first second := by
  simp only [isPlain, Bool.and_eq_true, decide_eq_true_eq] at plain
  obtain ⟨⟨other, leftPlain⟩, rightPlain⟩ := plain
  obtain ⟨first, leftDone⟩ := evaluate_of_isPlain leftPlain table
  obtain ⟨second, rightDone⟩ := evaluate_of_isPlain rightPlain table
  rw [evaluate, leftSet, rightSet, if_neg (by simp), if_neg other, leftDone]
  cases first with
  | error fault => rfl
  | ok value =>
      dsimp only
      rw [rightDone]
      cases second <;> rfl

theorem evaluate_operands (plain : (binary id operator left right).isPlain = true)
    {first second : Number} (leftDone : (left.evaluate table).1 = .ok first)
    (rightDone : (right.evaluate table).1 = .ok second) :
    ((binary id operator left right).evaluate table).1 = Number.operate operator first second := by
  rw [evaluate_binary plain (isVacant_eq_false_of_evaluate leftDone)
    (isVacant_eq_false_of_evaluate rightDone), leftDone, rightDone]
  rfl

theorem isPlain_operands (plain : (binary id operator left right).isPlain = true) :
    left.isPlain = true ∧ right.isPlain = true := by
  simp only [isPlain, Bool.and_eq_true] at plain
  exact ⟨plain.1.2, plain.2⟩

/-- A tree with a value is evaluated by evaluating its source. -/
theorem evaluate_source (valued : tree.hasValue table = true) :
    tree.source.hasValue table = true ∧ tree.parts = tree.source.parts ∧
      (tree.evaluate table).1 = (tree.source.evaluate table).1 := by
  obtain same | ⟨id, target, value, rfl⟩ := tree.source_cases
  · rw [same]
    exact ⟨valued, rfl, rfl⟩
  · rw [hasValue_binary, if_pos rfl, Bool.and_eq_true, Bool.not_eq_true'] at valued
    have set := isVacant_eq_false_of_hasValue valued.2
    rw [parts, evaluate, valued.1, set, if_neg (by simp), if_pos rfl, if_neg (by simp),
      if_pos rfl, source]
    refine ⟨valued.2, rfl, ?_⟩
    split
    next result table done => rw [done]
    next => rfl

/-! ### Integers only -/

/-- All numbers that occur in the tree, and all that its variables have, are integers. -/
structure IsInteger (table : Variables) (tree : Tree) : Prop where
  constants : ∀ value ∈ tree.constants, value.kind = .int
  values : ∀ name ∈ tree.names, ∀ value, table.value? name = some value → value.kind = .int

theorem IsInteger.operands (integer : (binary id operator left right).IsInteger table) :
    left.IsInteger table ∧ right.IsInteger table :=
  ⟨⟨fun value member => integer.constants value (List.mem_append_left _ member),
      fun name member => integer.values name (List.mem_append_left _ member)⟩,
    ⟨fun value member => integer.constants value (List.mem_append_right _ member),
      fun name member => integer.values name (List.mem_append_right _ member)⟩⟩

theorem IsInteger.source (integer : tree.IsInteger table) : tree.source.IsInteger table := by
  obtain same | ⟨id, target, value, rfl⟩ := tree.source_cases
  · rwa [same]
  · exact integer.operands.2

theorem exists_int {value : Number} (whole : value.kind = .int) :
    ∃ number, value = .int number := by
  cases value with
  | int number => exact ⟨number, rfl⟩
  | _ => cases whole

theorem IsInteger.evaluate_cases (integer : tree.IsInteger table) (plain : tree.isPlain = true)
    (valued : tree.hasValue table = true) :
    (∃ number, (tree.evaluate table).1 = .ok (.int number)) ∨
      (tree.evaluate table).1 = .error .divisionByZero := by
  induction tree with
  | constant id value =>
      obtain ⟨number, rfl⟩ := exists_int (integer.constants value List.mem_cons_self)
      exact .inl ⟨number, rfl⟩
  | «variable» id name =>
      obtain ⟨value, found⟩ := Option.isSome_iff_exists.mp valued
      obtain ⟨number, rfl⟩ := exists_int (integer.values name List.mem_cons_self value found)
      exact .inl ⟨number, by rw [evaluate, found]⟩
  | binary id operator left right leftHypothesis rightHypothesis =>
      have operands := plain
      simp only [isPlain, Bool.and_eq_true, decide_eq_true_eq] at operands
      rw [hasValue_binary, if_neg operands.1.1, Bool.and_eq_true] at valued
      rw [evaluate_binary plain (isVacant_eq_false_of_hasValue valued.1)
        (isVacant_eq_false_of_hasValue valued.2)]
      rcases leftHypothesis integer.operands.1 operands.1.2 valued.1 with ⟨first, done⟩ | refused
      · rcases rightHypothesis integer.operands.2 operands.2 valued.2 with ⟨second, also⟩ | refused
        · simp only [done, also, Except.bind, Number.operate_int]
          split
          next => exact .inr rfl
          next => exact .inl ⟨_, rfl⟩
        · exact .inr (by rw [done, refused]; rfl)
      · exact .inr (by rw [refused]; rfl)
  | _ => cases valued

/-! ### Exact values -/

/-- The exact value of a tree of sums, differences and products of integers, and of powers
whose exponents are constants and not negative. -/
def exactValue? (table : Variables) : Tree → Option ℤ
  | .constant _ (.int value) => some value.toInt
  | .variable _ name =>
      match table.value? name with
      | some (.int value) => some value.toInt
      | _ => none
  | .binary _ .assign _ right => right.exactValue? table
  | .binary _ .add left right =>
      Option.map₂ (· + ·) (left.exactValue? table) (right.exactValue? table)
  | .binary _ .subtract left right =>
      Option.map₂ (· - ·) (left.exactValue? table) (right.exactValue? table)
  | .binary _ .multiply left right =>
      Option.map₂ (· * ·) (left.exactValue? table) (right.exactValue? table)
  | .binary _ .power left (.constant _ (.int exponent)) =>
      if 0 ≤ exponent then (left.exactValue? table).map (· ^ exponent.toInt.toNat) else none
  | _ => none

/-- An operator that commutes with the reduction to 32 bits gives the reduced exact result. -/
theorem evaluate_reduced {apply : ℤ → ℤ → ℤ}
    (reduced : ∀ first second,
      Number.operate operator (.int (.ofInt first)) (.int (.ofInt second)) =
        .ok (.int (.ofInt (apply first second))))
    (plain : (binary id operator left right).isPlain = true)
    (leftHypothesis : left.isPlain = true → ∀ {exact}, left.exactValue? table = some exact →
      (left.evaluate table).1 = .ok (.int (.ofInt exact)))
    (rightHypothesis : right.isPlain = true → ∀ {exact}, right.exactValue? table = some exact →
      (right.evaluate table).1 = .ok (.int (.ofInt exact))) {exact : ℤ}
    (found : Option.map₂ apply (left.exactValue? table) (right.exactValue? table) = some exact) :
    ((binary id operator left right).evaluate table).1 = .ok (.int (.ofInt exact)) := by
  obtain ⟨first, second, low, high, rfl⟩ := Option.map₂_eq_some_iff.mp found
  obtain ⟨leftPlain, rightPlain⟩ := isPlain_operands plain
  rw [evaluate_operands plain (leftHypothesis leftPlain low) (rightHypothesis rightPlain high),
    reduced]

/-- The value of such a tree is its exact value, reduced to 32 bits. -/
theorem evaluate_of_exactValue? (plain : tree.isPlain = true) {exact : ℤ}
    (found : tree.exactValue? table = some exact) :
    (tree.evaluate table).1 = .ok (.int (.ofInt exact)) := by
  fun_induction exactValue? table tree generalizing exact with
  | case1 id value =>
      cases found
      rw [evaluate, Int32.ofInt_toInt]
  | case2 id name value known =>
      cases found
      rw [evaluate, known, Int32.ofInt_toInt]
  | case4 => cases plain
  | case5 id left right leftHypothesis rightHypothesis =>
      refine evaluate_reduced (fun first second => ?_) plain leftHypothesis rightHypothesis found
      rw [Int32.ofInt_add]
      rfl
  | case6 id left right leftHypothesis rightHypothesis =>
      refine evaluate_reduced (fun first second => ?_) plain leftHypothesis rightHypothesis found
      rw [Int32.ofInt_sub]
      rfl
  | case7 id left right leftHypothesis rightHypothesis =>
      refine evaluate_reduced (fun first second => ?_) plain leftHypothesis rightHypothesis found
      rw [Int32.ofInt_mul]
      rfl
  | case8 id left low exponent positive leftHypothesis =>
      obtain ⟨base, here, rfl⟩ := Option.map_eq_some_iff.mp found
      have done := leftHypothesis (isPlain_operands plain).1 here
      rw [evaluate_operands plain done rfl, Number.operate, Integer.operate, if_pos positive,
        Integer.power_ofInt]
      rfl
  | case3 | case9 | case10 => cases found

/-- The part is no operator but a sum, a difference, a product or such a power. -/
def IsPolynomial : Tree → Prop
  | .binary _ operator _ right =>
      operator ∈ [.add, .subtract, .multiply] ∨ operator = .power ∧
        ∃ id exponent, right = .constant id (.int exponent) ∧ 0 ≤ exponent
  | _ => True

theorem parts_binary (other : operator ≠ .assign) (leftSet : left.isVacant = false)
    (rightSet : right.isVacant = false) :
    (binary id operator left right).parts =
      left.parts ++ right.parts ++ [binary id operator left right] := by
  rw [parts, leftSet, rightSet, if_neg (by simp), if_neg other]

theorem IsInteger.exists_exactValue? (integer : tree.IsInteger table) (plain : tree.isPlain = true)
    (valued : tree.hasValue table = true)
    (polynomial : ∀ part ∈ tree.parts, part.IsPolynomial) :
    ∃ exact, tree.exactValue? table = some exact := by
  induction tree with
  | constant id value =>
      obtain ⟨number, rfl⟩ := exists_int (integer.constants value List.mem_cons_self)
      exact ⟨_, rfl⟩
  | «variable» id name =>
      obtain ⟨value, found⟩ := Option.isSome_iff_exists.mp valued
      obtain ⟨number, rfl⟩ := exists_int (integer.values name List.mem_cons_self value found)
      exact ⟨_, by rw [exactValue?, found]⟩
  | binary id operator left right leftHypothesis rightHypothesis =>
      have other : operator ≠ .assign := by
        rintro rfl
        cases plain
      rw [hasValue_binary, if_neg other, Bool.and_eq_true] at valued
      rw [parts_binary other (isVacant_eq_false_of_hasValue valued.1)
        (isVacant_eq_false_of_hasValue valued.2)] at polynomial
      simp only [List.forall_mem_append, List.forall_mem_singleton] at polynomial
      obtain ⟨⟨leftParts, rightParts⟩, here⟩ := polynomial
      obtain ⟨leftPlain, rightPlain⟩ := isPlain_operands plain
      obtain ⟨first, low⟩ := leftHypothesis integer.operands.1 leftPlain valued.1 leftParts
      rcases here with ring | ⟨rfl, place, exponent, rfl, positive⟩
      · obtain ⟨second, high⟩ := rightHypothesis integer.operands.2 rightPlain valued.2 rightParts
        fin_cases ring <;> simp [exactValue?, low, high]
      · simp [exactValue?, low, positive]
  | _ => cases valued

theorem exactValue?_source (tree : Tree) (table : Variables) :
    tree.exactValue? table = tree.source.exactValue? table := by
  obtain same | ⟨id, target, value, rfl⟩ := tree.source_cases
  · rw [same]
  · rfl

theorem isPlain_of_mem_parts {part : Tree} (plain : tree.isPlain = true)
    (inside : part ∈ tree.parts) : part.isPlain = true := by
  induction tree with
  | binary id operator left right leftHypothesis rightHypothesis =>
      obtain ⟨leftPlain, rightPlain⟩ := isPlain_operands plain
      rcases mem_parts_binary inside with rfl | inLeft | inRight
      · exact plain
      · exact leftHypothesis leftPlain inLeft
      · exact rightHypothesis rightPlain inRight
  | _ =>
      cases List.mem_singleton.mp inside
      exact plain

end Tree

namespace Forest

variable {forest : Forest} {node : Handle} {content : Node}

theorem Linked.isPlain_source (linked : forest.Linked) (node : Handle) :
    (forest.tree node).source.isPlain = true := by
  by_cases plain : forest.Plain node
  · have bare := linked.isPlain_tree plain
    obtain same | ⟨id, target, value, same⟩ := (forest.tree node).source_cases
    · rwa [same]
    · rw [same] at bare
      cases bare
  · simp only [Plain, not_forall, not_not] at plain
    obtain ⟨target, source, located⟩ := plain
    rw [linked.tree_eq, located, Tree.ofNode]
    exact linked.isPlain_ofOperand located

theorem Linked.error_of_refuses (linked : forest.Linked) {part : Tree} {fault : Fault}
    (inside : part ∈ (forest.tree node).parts) (refused : part.Refuses forest.table fault) :
    ∃ cause, ((forest.tree node).evaluate forest.table).1 = .error cause := by
  have first := (linked.faultOf_evaluate node).1
  have stops : ((forest.tree node).parts.findSome? (Tree.fault? forest.table)).isSome = true :=
    List.findSome?_isSome_iff.mpr ⟨part, inside, by rw [refused.fault?_eq, Option.isSome_some]⟩
  cases done : ((forest.tree node).evaluate forest.table).1 with
  | error cause => exact ⟨cause, rfl⟩
  | ok value =>
      rw [← first, done] at stops
      cases stops

theorem Linked.value_of_isInteger (linked : forest.Linked)
    (located : forest.node? node = some content) (single : content.isGroup = false)
    (valued : forest.hasValue node = true) (integer : (forest.tree node).IsInteger forest.table) :
    (∃ number, (forest.value node).1 = .ok (.int number)) ∨
      (forest.value node).1 = .error .divisionByZero := by
  rw [hasValue_of_not_group located single] at valued
  obtain ⟨sourceValued, -, evaluated⟩ := Tree.evaluate_source valued
  rw [value_of_not_group located single, evaluated]
  exact integer.source.evaluate_cases (linked.isPlain_source node) sourceValued

/-- A node over integers has an integer as its value, or a division by zero is met in it.  Every
operator gives its exact result, truncated toward zero and reduced to 32 bits; sums, differences,
products and powers with constant exponents may be reduced once, at the end. -/
theorem Reachable.value_of_integers (reachable : forest.Reachable)
    (located : forest.node? node = some content) (single : content.isGroup = false)
    (valued : forest.hasValue node = true) (integer : (forest.tree node).IsInteger forest.table) :
    ((∃ number, (forest.value node).1 = .ok (.int number)) ∨
      (forest.value node).1 = .error .divisionByZero) ∧
    ((forest.value node).1 = .error .divisionByZero ↔
      ∃ id operator left right first second,
        Tree.binary id operator left right ∈ (forest.tree node).parts ∧
        (left.evaluate forest.table).1 = .ok (.int first) ∧
        (right.evaluate forest.table).1 = .ok (.int second) ∧
        (operator = .divide ∧ second = 0 ∨ operator = .power ∧ first = 0 ∧ second < 0)) ∧
    (∀ id operator left right first second,
      Tree.binary id operator left right ∈ (forest.tree node).parts →
      (left.evaluate forest.table).1 = .ok (.int first) →
      (right.evaluate forest.table).1 = .ok (.int second) →
      ((Tree.binary id operator left right).evaluate forest.table).1 =
        if Integer.Undefined operator first second then .error .divisionByZero
        else .ok (.int (.ofInt (truncated (operator.exact first.toInt second.toInt))))) ∧
    ((∀ part ∈ (forest.tree node).parts, part.IsPolynomial) →
      ∃ exact, (forest.tree node).exactValue? forest.table = some exact ∧
        (forest.value node).1 = .ok (.int (.ofInt exact))) ∧
    ∀ operand, (forest.tree node).expr? = some operand → operand.isAssignment = false →
      ∃ negative, Expr.negated .int operand = .ok negative ∧
        (∀ text minuses primary, Phrase.read text = .ok (.last minuses primary) →
          Expr.read .int text = .ok operand → Expr.read .int ('-' :: text) = .ok negative) ∧
        ∀ other, (forest.tree other).expr? = some negative →
          (forest.value other).1 = (forest.value node).1.map Number.negate := by
  have linked := reachable.linked
  have there := valued
  rw [hasValue_of_not_group located single] at there
  obtain ⟨sourceValued, sameParts, evaluated⟩ := Tree.evaluate_source there
  have plain := linked.isPlain_source node
  have done : (forest.value node).1 = ((forest.tree node).evaluate forest.table).1 := by
    rw [value_of_not_group located single]
  have cases := linked.value_of_isInteger located single valued integer
  -- An assignment has the value of its source, so what is left concerns trees without one.
  refine ⟨cases, ⟨fun failed => ?_, ?_⟩, ?_, fun polynomial => ?_, ?_⟩
  · rw [done] at failed
    obtain ⟨part, inside, refused⟩ := linked.refuses_of_hasValue there failed
    cases part with
    | binary id operator left right =>
        obtain ⟨_, _, leftDone, rightDone, applied⟩ := refused
        obtain ⟨first, second, rfl, rfl, undefined⟩ :=
          Number.operate_eq_divisionByZero_iff.mp applied
        exact ⟨id, operator, left, right, first, second, inside, leftDone, rightDone, undefined⟩
    | _ => cases refused
  · rintro ⟨id, operator, left, right, first, second, inside, leftDone, rightDone, undefined⟩
    have refused : (Tree.binary id operator left right).Refuses forest.table .divisionByZero :=
      ⟨_, _, leftDone, rightDone,
        Number.operate_eq_divisionByZero_iff.mpr ⟨first, second, rfl, rfl, undefined⟩⟩
    obtain ⟨cause, failed⟩ := linked.error_of_refuses inside refused
    refine cases.resolve_left ?_
    rintro ⟨number, succeeded⟩
    rw [done, failed] at succeeded
    cases succeeded
  · intro id operator left right first second inside leftDone rightDone
    rw [sameParts] at inside
    rw [Tree.evaluate_operands (Tree.isPlain_of_mem_parts plain inside) leftDone rightDone,
      Number.operate_int]
  · rw [sameParts] at polynomial
    obtain ⟨exact, found⟩ := integer.source.exists_exactValue? plain sourceValued polynomial
    refine ⟨exact, (Tree.exactValue?_source _ _).trans found, ?_⟩
    rw [done, evaluated, Tree.evaluate_of_exactValue? plain found]
  · intro operand found free
    have bare := Expr.isPlain_of_isLawful (linked.isLawful_of_expr? found) free
    obtain ⟨negative, read⟩ := Expr.exists_negated .int free
    refine ⟨negative, read, fun text minuses primary phrase again => ?_, fun other here => ?_⟩
    · rw [Expr.read_minus phrase again, read]
    · have value : (forest.value node).1 = operand.evaluate forest.table := by
        rw [linked.value_of_expr? found, Tree.evaluate_of_expr? found bare]
      rw [linked.value_of_expr? here,
        Tree.evaluate_of_expr? here (Expr.isPlain_negated read bare), value]
      apply Expr.evaluate_negated read
      intro result evaluated
      rw [value, evaluated] at cases
      rcases cases with ⟨number, same⟩ | same
      · cases same
        rfl
      · cases same

/-- A product that is too large by far, less one. -/
theorem Reachable.value_of_large_product :
    let forest := (⟨.empty, .empty⟩ : Forest).run
      [.variable "x" (some (.int 65536)), .variable "x" none,
        .binary .multiply (some ⟨0, 0⟩) (some ⟨1, 0⟩), .constant (.int 1),
        .binary .subtract (some ⟨2, 0⟩) (some ⟨3, 0⟩)]
    forest.Reachable ∧
      forest.node? ⟨4, 0⟩ = some (.binary .subtract (some ⟨2, 0⟩) (some ⟨3, 0⟩)) ∧
      forest.hasValue ⟨4, 0⟩ = true ∧ (forest.tree ⟨4, 0⟩).IsInteger forest.table ∧
      (∀ part ∈ (forest.tree ⟨4, 0⟩).parts, part.IsPolynomial) ∧
      (forest.tree ⟨4, 0⟩).exactValue? forest.table = some 4294967295 ∧
      (forest.value ⟨4, 0⟩).1 = .ok (.int (-1)) := by
  intro forest
  have reachable : forest.Reachable := ⟨_, _, rfl⟩
  have located : forest.node? ⟨4, 0⟩ = some (.binary .subtract (some ⟨2, 0⟩) (some ⟨3, 0⟩)) := by
    decide +kernel
  have valued : forest.hasValue ⟨4, 0⟩ = true := by decide +kernel
  have tree : forest.tree ⟨4, 0⟩ = .binary ⟨4, 0⟩ .subtract
      (.binary ⟨2, 0⟩ .multiply (.variable ⟨0, 0⟩ "x") (.variable ⟨1, 0⟩ "x"))
      (.constant ⟨3, 0⟩ (.int 1)) := by
    decide +kernel
  have known : forest.table.value? "x" = some (.int 65536) := by decide +kernel
  have integer : (forest.tree ⟨4, 0⟩).IsInteger forest.table := by
    rw [tree]
    constructor
    · simp [Tree.constants, Number.kind]
    · simp [Tree.names, known, Number.kind]
  have polynomial : ∀ part ∈ (forest.tree ⟨4, 0⟩).parts, part.IsPolynomial := by
    rw [tree]
    simp [Tree.parts, Tree.isVacant, Tree.IsPolynomial]
  have exactly : (forest.tree ⟨4, 0⟩).exactValue? forest.table = some 4294967295 := by
    rw [tree]
    simp [Tree.exactValue?, known]
  obtain ⟨-, -, -, whole, -⟩ := value_of_integers reachable located rfl valued integer
  obtain ⟨exact, found, done⟩ := whole polynomial
  cases exactly.symm.trans found
  exact ⟨reachable, located, valued, integer, polynomial, exactly, done⟩

end Forest

end Worksheet
