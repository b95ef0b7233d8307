import Worksheet.Proofs.Sheet.Structure

/-!
# What the filters let through

A filter looks for the symbol of an operator in the text of an expression.  Names have no
such characters and finite numbers only a minus, so the symbol is found where the tree has
the operator, and the minus also where a number in the tree is written with one.
-/

namespace Worksheet

open Grammar

/-! ### Symbols in texts -/

namespace Operator

theorem symbol_injective : Function.Injective symbol := by
  intro first second same
  apply Option.some.inj
  rw [← ofSymbol?_symbol first, same, ofSymbol?_symbol]

theorem isNameChar_symbol (operator : Operator) : isNameChar operator.symbol = false := by
  cases operator <;> decide

theorem eq_subtract_of_mem_source {operator : Operator} {value : Number}
    (finite : value.isFinite = true) (member : operator.symbol ∈ value.source.toList) :
    operator = .subtract := by
  obtain ⟨negative, lexeme, formed, text, -⟩ := Number.source_of_isFinite finite
  rw [text] at member
  rcases cases_of_mem_withSign formed member with digit | point | mark | minus
  · cases operator <;> cases digit
  · cases operator <;> cases point
  · cases operator <;> cases mark
  · exact symbol_injective minus

end Operator

namespace Expr

variable {expr : Expr} {operator : Operator}

theorem symbol_mem_enclosed_iff {parentheses : Bool} {text : List Char} :
    operator.symbol ∈ enclosed parentheses text ↔ operator.symbol ∈ text := by
  cases parentheses with
  | false => rfl
  | true =>
      have opening : operator.symbol ≠ '(' := by cases operator <;> decide
      have closing : operator.symbol ≠ ')' := by cases operator <;> decide
      simp [enclosed, opening, closing]

/-- A symbol in the text of an expression is that of one of its operators, or it is in a
number. -/
theorem symbol_mem_written_iff (named : ∀ name ∈ expr.names, isName name.toList = true) :
    operator.symbol ∈ expr.written ↔
      (∃ left right, expr.IsPart (.binary operator left right)) ∨
        ∃ value ∈ expr.constants, operator.symbol ∈ value.source.toList := by
  induction expr with
  | number value => simp [written, constants, isPart_number_iff]
  | «variable» name =>
      have absent : operator.symbol ∉ name.toList := by
        intro member
        have letter := isNameChar_of_isName (named name List.mem_cons_self) _ member
        rw [operator.isNameChar_symbol] at letter
        cases letter
      simp [written, constants, isPart_variable_iff, absent]
  | binary other left right leftHypothesis rightHypothesis =>
      have first := leftHypothesis fun name member => named name (List.mem_append_left _ member)
      have second := rightHypothesis fun name member => named name (List.mem_append_right _ member)
      have blank : operator.symbol ≠ ' ' := by cases operator <;> decide
      have here : operator.symbol ∈ (binary other left right).written ↔
          operator = other ∨ operator.symbol ∈ left.written ∨ operator.symbol ∈ right.written := by
        simp only [written, List.mem_append, List.mem_cons, symbol_mem_enclosed_iff, blank,
          Operator.symbol_injective.eq_iff, false_or]
        exact or_left_comm
      have parts : (∃ one two, (binary other left right).IsPart (.binary operator one two)) ↔
          operator = other ∨ (∃ one two, left.IsPart (.binary operator one two)) ∨
            ∃ one two, right.IsPart (.binary operator one two) := by
        simp only [isPart_binary_iff, binary.injEq, exists_or, exists_eq_right, exists_and_left]
      rw [here, parts, first, second, or_or_or_comm, ← or_assoc]
      simp only [constants, List.mem_append, or_and_right, exists_or]

/-- In a readable expression only the minus is also written in numbers. -/
theorem Readable.symbol_mem_written_iff {kind : Kind} (readable : expr.Readable kind) :
    operator.symbol ∈ expr.written ↔
      (∃ left right, expr.IsPart (.binary operator left right)) ∨
        operator = .subtract ∧ ∃ value ∈ expr.constants, '-' ∈ value.source.toList := by
  rw [Expr.symbol_mem_written_iff readable.isName_names]
  refine or_congr_right ⟨?_, ?_⟩
  · rintro ⟨value, member, inside⟩
    have minus :=
      Operator.eq_subtract_of_mem_source (readable.isFinite_constants value member) inside
    subst minus
    exact ⟨rfl, value, member, inside⟩
  · rintro ⟨rfl, value, member, inside⟩
    exact ⟨value, member, inside⟩

end Expr

/-! ### Terminals in trees -/

namespace Forest

variable {forest : Forest} {top : Handle} {expr : Expr}

/-- The operator is in the tree, or it is the minus and a number is written with one. -/
def HasSymbol (forest : Forest) (top : Handle) (operator : Operator) : Prop :=
  forest.Has top (fun content => content.operator? = some operator) ∨
    operator = .subtract ∧
      forest.Has top fun content => ∃ value, content = .constant value ∧ '-' ∈ value.source.toList

theorem Has.mono {such other : Node → Prop} (has : forest.Has top such)
    (weaker : ∀ content, such content → other content) : forest.Has top other := by
  obtain ⟨low, content, below, located, holds⟩ := has
  exact ⟨low, content, below, located, weaker content holds⟩

theorem Linked.has_admits_iff (linked : forest.Linked)
    (found : (forest.tree top).expr? = some expr) (terminals : Terminals) :
    forest.Has top terminals.Admits ↔
      terminals = .all ∨ forest.containsTerminal top terminals = true := by
  have constants : forest.Has top Terminals.constants.Admits ↔ ∃ value, value ∈ expr.constants := by
    have held := linked.has_constant_iff found fun _ => True
    simp only [and_true] at held
    exact held
  have names : forest.Has top Terminals.names.Admits ↔ ∃ name, name ∈ expr.names := by
    have held := linked.has_variable_iff found fun _ => True
    simp only [and_true] at held
    exact held
  have contains : forest.containsTerminal top terminals = (forest.tree top).holds terminals := by
    simp [containsTerminal, linked.trees_of_expr? found]
  rw [contains]
  cases terminals with
  | constants =>
      rw [constants, ← List.isEmpty_eq_false_iff_exists_mem]
      simp [Tree.holds, Tree.constants_of_expr? found]
  | names =>
      rw [names, ← List.isEmpty_eq_false_iff_exists_mem]
      simp [Tree.holds, Tree.names_of_expr? found]
  | all =>
      refine ⟨fun _ => .inl rfl, fun _ => ?_⟩
      rcases expr.exists_terminal with ⟨value, isPart⟩ | ⟨name, isPart⟩
      · refine (constants.mpr ⟨value, Expr.mem_constants_iff.mpr isPart⟩).mono ?_
        rintro content ⟨_, rfl⟩
        rfl
      · refine (names.mpr ⟨name, Expr.mem_names_iff.mpr isPart⟩).mono ?_
        rintro content ⟨_, rfl⟩
        rfl

end Forest

namespace Sheet

variable {sheet : Sheet}

/-- What a listed tree must have to be shown. -/
structure Passes (sheet : Sheet) (top : Handle) : Prop where
  operator : ∀ operator, sheet.filters.operator = some operator →
    sheet.forest.HasSymbol top operator
  terminals : sheet.forest.Has top sheet.filters.terminals.Admits
  name : ∀ name, sheet.filters.name = some name →
    name.toList <:+: (sheet.forest.render top).toList

theorem Rooted.occurs_symbol_iff (rooted : sheet.Rooted) {top : Handle}
    (member : top ∈ sheet.listed) (operator : Operator) :
    Text.occurs [operator.symbol] (sheet.forest.render top).toList = true ↔
      sheet.forest.HasSymbol top operator := by
  obtain ⟨expr, found, readable⟩ := rooted.expr?_listed top member
  rw [Forest.HasSymbol, Text.occurs_iff, List.singleton_infix_iff,
    rooted.linked.toList_render found, readable.symbol_mem_written_iff,
    rooted.linked.has_operator_iff found,
    rooted.linked.has_constant_iff found fun value => '-' ∈ value.source.toList]

theorem Rooted.accepts_iff (rooted : sheet.Rooted) {top : Handle} (member : top ∈ sheet.listed) :
    sheet.accepts top = true ↔ sheet.Passes top := by
  obtain ⟨expr, found, -⟩ := rooted.expr?_listed top member
  have criteria : sheet.accepts top = true ↔
      ((∀ operator, sheet.filters.operator = some operator →
          Text.occurs [operator.symbol] (sheet.forest.render top).toList = true) ∧
        (sheet.filters.terminals = .all ∨
          sheet.forest.containsTerminal top sheet.filters.terminals = true)) ∧
        ∀ name, sheet.filters.name = some name →
          Text.occurs name.toList (sheet.forest.render top).toList = true := by
    simp [accepts, Option.all_eq_true]
  simp only [criteria, rooted.occurs_symbol_iff member, Text.occurs_iff,
    ← rooted.linked.has_admits_iff found]
  exact ⟨fun ⟨⟨operator, terminals⟩, name⟩ => ⟨operator, terminals, name⟩,
    fun passes => ⟨⟨passes.operator, passes.terminals⟩, passes.name⟩⟩

/-- The listed trees are shown that have what each of the three filters asks for, in the order of
the list.  What the filter for an operator finds in the text is in the tree. -/
theorem Attainable.shown_iff (attainable : sheet.Attainable) :
    sheet.listed.Nodup ∧ sheet.shown.Sublist sheet.listed ∧
    (∀ top, top ∈ sheet.shown ↔ top ∈ sheet.listed ∧ sheet.Passes top) ∧
    ∀ top ∈ sheet.listed, ∀ operator : Operator,
      Text.occurs [operator.symbol] (sheet.forest.render top).toList = true ↔
        sheet.forest.Has top (fun content => content.operator? = some operator) ∨
          operator = .subtract ∧
            sheet.forest.Has top fun content =>
              ∃ value, content = .constant value ∧ '-' ∈ value.source.toList := by
  have rooted := attainable.intact.rooted
  refine ⟨rooted.nodup_listed, List.filter_sublist, fun top => ?_,
    fun top member => rooted.occurs_symbol_iff member⟩
  rw [shown, List.mem_filter]
  exact and_congr_right fun member => rooted.accepts_iff member

/-- Of three expressions, the filter for the minus shows a difference and a product by a
negative number. -/
theorem Attainable.shown_by_minus :
    let sheet := (new .standard).acts
      [.own (.enter (some "a - b; c * -5; c + 1")), .own (.filterOperator (some .subtract))]
    sheet.Attainable ∧ sheet.listed = [⟨3, 0⟩, ⟨6, 0⟩, ⟨9, 0⟩] ∧
      sheet.Passes ⟨3, 0⟩ ∧ sheet.Passes ⟨6, 0⟩ ∧ ¬sheet.Passes ⟨9, 0⟩ := by
  intro sheet
  have attainable : sheet.Attainable := ⟨_, _, rfl⟩
  have listed : sheet.listed = [⟨3, 0⟩, ⟨6, 0⟩, ⟨9, 0⟩] := by
    unfold sheet
    cbv
  have shown : sheet.shown = [⟨3, 0⟩, ⟨6, 0⟩] := by
    unfold sheet
    cbv
  have passes := (shown_iff attainable).2.2.1
  rw [shown, listed] at passes
  refine ⟨attainable, listed, ?_, ?_, fun third => ?_⟩
  · exact ((passes ⟨3, 0⟩).mp (by decide)).2
  · exact ((passes ⟨6, 0⟩).mp (by decide)).2
  · exact absurd ((passes ⟨9, 0⟩).mpr ⟨by decide, third⟩) (by decide)

end Sheet

end Worksheet
