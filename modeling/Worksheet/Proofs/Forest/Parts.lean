import Worksheet.Proofs.Expr.Reading
import Worksheet.Proofs.Forest.Rendering

/-!
# Parts of expressions

The nodes below the node of an expression hold the parts of the expression, each part at
one of them.  What is true of some part is therefore true of some node, and conversely.
-/

namespace Worksheet

/-- The expression itself, or one of its operands, and so on down. -/
inductive Expr.IsPart (expr : Expr) : Expr → Prop where
  | whole : IsPart expr expr
  | left {operator : Operator} {left right : Expr}
      (part : IsPart expr (.binary operator left right)) : IsPart expr left
  | right {operator : Operator} {left right : Expr}
      (part : IsPart expr (.binary operator left right)) : IsPart expr right

namespace Expr.IsPart

variable {expr middle part : Expr}

theorem trans (first : expr.IsPart middle) (second : middle.IsPart part) : expr.IsPart part := by
  induction second with
  | whole => exact first
  | left _ inductionHypothesis => exact inductionHypothesis.left
  | right _ inductionHypothesis => exact inductionHypothesis.right

theorem constants_subset (isPart : expr.IsPart part) : part.constants ⊆ expr.constants := by
  induction isPart with
  | whole => exact List.Subset.refl _
  | left _ inductionHypothesis =>
      exact fun value member => inductionHypothesis (List.mem_append_left _ member)
  | right _ inductionHypothesis =>
      exact fun value member => inductionHypothesis (List.mem_append_right _ member)

theorem names_subset (isPart : expr.IsPart part) : part.names ⊆ expr.names := by
  induction isPart with
  | whole => exact List.Subset.refl _
  | left _ inductionHypothesis =>
      exact fun name member => inductionHypothesis (List.mem_append_left _ member)
  | right _ inductionHypothesis =>
      exact fun name member => inductionHypothesis (List.mem_append_right _ member)

theorem isLawful (isPart : expr.IsPart part) (lawful : expr.isLawful = true) :
    part.isLawful = true := by
  induction isPart with
  | whole => exact lawful
  | left _ inductionHypothesis =>
      simp only [Expr.isLawful, Bool.and_eq_true] at inductionHypothesis
      exact isLawful_of_isPlain inductionHypothesis.1.2
  | right _ inductionHypothesis =>
      simp only [Expr.isLawful, Bool.and_eq_true] at inductionHypothesis
      exact isLawful_of_isPlain inductionHypothesis.2

theorem readable {kind : Kind} (isPart : expr.IsPart part) (readable : expr.Readable kind) :
    part.Readable kind :=
  ⟨isPart.isLawful readable.lawful,
    fun name member => readable.isName_names name (isPart.names_subset member),
    fun value member => readable.kind_constants value (isPart.constants_subset member),
    fun value member => readable.isFinite_constants value (isPart.constants_subset member)⟩

end Expr.IsPart

namespace Expr

variable {part : Expr}

theorem isPart_iff_eq {expr : Expr}
    (single : ∀ operator left right, expr ≠ .binary operator left right) :
    expr.IsPart part ↔ part = expr := by
  constructor
  · intro isPart
    induction isPart with
    | whole => rfl
    | left _ inductionHypothesis => exact absurd inductionHypothesis.symm (single _ _ _)
    | right _ inductionHypothesis => exact absurd inductionHypothesis.symm (single _ _ _)
  · rintro rfl
    exact .whole

theorem isPart_number_iff {value : Number} :
    (Expr.number value).IsPart part ↔ part = .number value :=
  isPart_iff_eq (by simp)

theorem isPart_variable_iff {name : String} :
    (Expr.variable name).IsPart part ↔ part = .variable name :=
  isPart_iff_eq (by simp)

theorem isPart_binary_iff {operator : Operator} {left right : Expr} :
    (Expr.binary operator left right).IsPart part ↔
      part = .binary operator left right ∨ left.IsPart part ∨ right.IsPart part := by
  constructor
  · intro isPart
    induction isPart with
    | whole => exact .inl rfl
    | left _ inductionHypothesis =>
        rcases inductionHypothesis with same | inLeft | inRight
        · cases same
          exact .inr (.inl .whole)
        · exact .inr (.inl inLeft.left)
        · exact .inr (.inr inRight.left)
    | right _ inductionHypothesis =>
        rcases inductionHypothesis with same | inLeft | inRight
        · cases same
          exact .inr (.inr .whole)
        · exact .inr (.inl inLeft.right)
        · exact .inr (.inr inRight.right)
  · rintro (rfl | inLeft | inRight)
    · exact .whole
    · exact IsPart.trans (.left .whole) inLeft
    · exact IsPart.trans (.right .whole) inRight

theorem mem_constants_iff {expr : Expr} {value : Number} :
    value ∈ expr.constants ↔ expr.IsPart (.number value) := by
  induction expr with
  | number other => simp [constants, isPart_number_iff]
  | «variable» name => simp [constants, isPart_variable_iff]
  | binary operator left right leftHypothesis rightHypothesis =>
      simp [constants, isPart_binary_iff, leftHypothesis, rightHypothesis]

theorem mem_names_iff {expr : Expr} {name : String} :
    name ∈ expr.names ↔ expr.IsPart (.variable name) := by
  induction expr with
  | number value => simp [names, isPart_number_iff]
  | «variable» other => simp [names, isPart_variable_iff]
  | binary operator left right leftHypothesis rightHypothesis =>
      simp [names, isPart_binary_iff, leftHypothesis, rightHypothesis]

theorem exists_terminal (expr : Expr) :
    (∃ value, expr.IsPart (.number value)) ∨ ∃ name, expr.IsPart (.variable name) := by
  induction expr with
  | number value => exact .inl ⟨value, .whole⟩
  | «variable» name => exact .inr ⟨name, .whole⟩
  | binary operator left right leftHypothesis _ =>
      simp only [isPart_binary_iff]
      rcases leftHypothesis with ⟨value, inside⟩ | ⟨name, inside⟩
      · exact .inl ⟨value, .inr (.inl inside)⟩
      · exact .inr ⟨name, .inr (.inl inside)⟩

end Expr

/-- The nodes for which a filter looks. -/
def Terminals.Admits : Terminals → Node → Prop
  | .all, content => content.isTerminal = true
  | .constants, content => ∃ value, content = .constant value
  | .names, content => ∃ name, content = .variable name

namespace Forest

variable {forest : Forest} {low top : Handle} {expr : Expr}

/-- What is below an expression node is a part of the expression. -/
theorem Linked.isPart_of_below (linked : forest.Linked)
    (found : (forest.tree top).expr? = some expr) (below : forest.Below low top) :
    ∃ part, (forest.tree low).expr? = some part ∧ expr.IsPart part := by
  induction below using Relation.ReflTransGen.head_induction_on with
  | refl => exact ⟨expr, found, .whole⟩
  | @head low next up rest inductionHypothesis =>
      obtain ⟨whole, here, isPart⟩ := inductionHypothesis
      obtain ⟨content, located, member⟩ := up
      cases content with
      | binary operator left right =>
          obtain ⟨first, second, one, other, rfl, rfl, leftFound, rightFound, rfl⟩ :=
            linked.operands_of_expr? located here
          rcases List.mem_append.mp member with left | right
          · cases List.mem_singleton.mp left
            exact ⟨one, leftFound, isPart.left⟩
          · cases List.mem_singleton.mp right
            exact ⟨other, rightFound, isPart.right⟩
      | group members =>
          rw [linked.tree_eq, located] at here
          cases here
      | _ => cases member

theorem Linked.expr?_of_below (linked : forest.Linked) {low top : Handle} {expr : Expr}
    (found : (forest.tree top).expr? = some expr) (below : forest.Below low top) :
    ∃ part, (forest.tree low).expr? = some part ∧ part.constants ⊆ expr.constants := by
  obtain ⟨part, here, isPart⟩ := linked.isPart_of_below found below
  exact ⟨part, here, isPart.constants_subset⟩

/-- Below an expression node only that node itself can be an assignment. -/
theorem Linked.eq_of_assignment_below (linked : forest.Linked) {low top : Handle}
    {left right : Option Handle} {expr : Expr} (found : (forest.tree top).expr? = some expr)
    (located : forest.node? low = some (.binary .assign left right))
    (below : forest.Below low top) : low = top := by
  rcases below.cases_head with same | ⟨next, up, rest⟩
  · exact same
  · have above := linked.parent?_of_child low next up
    obtain ⟨members, group⟩ := linked.assignment_parent? low left right next located above
    obtain ⟨part, here, -⟩ := linked.expr?_of_below found rest
    rw [linked.tree_eq, group] at here
    cases here

/-! ### Nodes for parts -/

/-- The node has the content of the expression, with the operands at the nodes to which
it links. -/
def Carries (forest : Forest) (low : Handle) : Expr → Prop
  | .number value => forest.node? low = some (.constant value)
  | .variable name => forest.node? low = some (.variable name)
  | .binary operator first second =>
      ∃ left right, forest.node? low = some (.binary operator (some left) (some right)) ∧
        (forest.tree left).expr? = some first ∧ (forest.tree right).expr? = some second

theorem Linked.carries (linked : forest.Linked) (found : (forest.tree low).expr? = some expr) :
    forest.Carries low expr := by
  obtain ⟨content, located⟩ : ∃ content, forest.node? low = some content := by
    cases located : forest.node? low with
    | none =>
        rw [linked.tree_eq, located] at found
        cases found
    | some content => exact ⟨content, rfl⟩
  cases content with
  | binary operator left right =>
      obtain ⟨left, right, first, second, rfl, rfl, leftFound, rightFound, rfl⟩ :=
        linked.operands_of_expr? located found
      exact ⟨left, right, located, leftFound, rightFound⟩
  | group members =>
      rw [linked.tree_eq, located] at found
      cases found
  | _ =>
      rw [linked.tree_eq, located] at found
      cases found
      exact located

theorem Linked.exists_below_of_isPart (linked : forest.Linked)
    (found : (forest.tree top).expr? = some expr) {part : Expr} (isPart : expr.IsPart part) :
    ∃ low, forest.Below low top ∧ (forest.tree low).expr? = some part := by
  induction isPart with
  | whole => exact ⟨top, .refl, found⟩
  | left _ inductionHypothesis =>
      obtain ⟨low, below, here⟩ := inductionHypothesis
      obtain ⟨left, right, located, leftFound, -⟩ := linked.carries here
      exact ⟨left, .head ⟨_, located, by simp [Node.children]⟩ below, leftFound⟩
  | right _ inductionHypothesis =>
      obtain ⟨low, below, here⟩ := inductionHypothesis
      obtain ⟨left, right, located, -, rightFound⟩ := linked.carries here
      exact ⟨right, .head ⟨_, located, by simp [Node.children]⟩ below, rightFound⟩

/-- Some node at or below the given one has such a content. -/
def Has (forest : Forest) (top : Handle) (such : Node → Prop) : Prop :=
  ∃ low content, forest.Below low top ∧ forest.node? low = some content ∧ such content

theorem Linked.has_operator_iff (linked : forest.Linked)
    (found : (forest.tree top).expr? = some expr) (operator : Operator) :
    forest.Has top (fun content => content.operator? = some operator) ↔
      ∃ left right, expr.IsPart (.binary operator left right) := by
  constructor
  · rintro ⟨low, content, below, located, such⟩
    obtain ⟨part, here, isPart⟩ := linked.isPart_of_below found below
    cases content with
    | binary other left right =>
        cases such
        obtain ⟨-, -, first, second, -, -, -, -, rfl⟩ := linked.operands_of_expr? located here
        exact ⟨first, second, isPart⟩
    | _ => cases such
  · rintro ⟨first, second, isPart⟩
    obtain ⟨low, below, here⟩ := linked.exists_below_of_isPart found isPart
    obtain ⟨left, right, located, -, -⟩ := linked.carries here
    exact ⟨low, _, below, located, rfl⟩

theorem Linked.has_constant_iff (linked : forest.Linked)
    (found : (forest.tree top).expr? = some expr) (such : Number → Prop) :
    forest.Has top (fun content => ∃ value, content = .constant value ∧ such value) ↔
      ∃ value ∈ expr.constants, such value := by
  constructor
  · rintro ⟨low, _, below, located, value, rfl, holds⟩
    obtain ⟨part, here, isPart⟩ := linked.isPart_of_below found below
    rw [linked.tree_eq, located] at here
    cases here
    exact ⟨value, Expr.mem_constants_iff.mpr isPart, holds⟩
  · rintro ⟨value, member, holds⟩
    obtain ⟨low, below, here⟩ :=
      linked.exists_below_of_isPart found (Expr.mem_constants_iff.mp member)
    exact ⟨low, _, below, linked.carries here, value, rfl, holds⟩

theorem Linked.has_variable_iff (linked : forest.Linked)
    (found : (forest.tree top).expr? = some expr) (such : String → Prop) :
    forest.Has top (fun content => ∃ name, content = .variable name ∧ such name) ↔
      ∃ name ∈ expr.names, such name := by
  constructor
  · rintro ⟨low, _, below, located, name, rfl, holds⟩
    obtain ⟨part, here, isPart⟩ := linked.isPart_of_below found below
    rw [linked.tree_eq, located] at here
    cases here
    exact ⟨name, Expr.mem_names_iff.mpr isPart, holds⟩
  · rintro ⟨name, member, holds⟩
    obtain ⟨low, below, here⟩ :=
      linked.exists_below_of_isPart found (Expr.mem_names_iff.mp member)
    exact ⟨low, _, below, linked.carries here, name, rfl, holds⟩

end Forest

end Worksheet
