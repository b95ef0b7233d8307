import Worksheet.Forest.Render
import Worksheet.Proofs.Expr.Levels
import Worksheet.Proofs.Grammar.Scanning
import Worksheet.Proofs.Number.Literal

/-!
# Expressions are read as they are written

The text of an expression is that of a level.  An operand in parentheses is one
operand of the level, and the level takes in the operands of any other one.  The
arrangement that comes of this is the only proper one.
-/

namespace Worksheet

open Grammar

/-! ### Texts of levels -/

namespace Grammar

def Phrase.join : Phrase → Operator → Phrase → Phrase
  | .last minuses primary, operator, right => .more minuses primary operator right
  | .more minuses primary inner rest, operator, right =>
      .more minuses primary inner (rest.join operator right)

namespace Phrase

variable {kind : Kind}

theorem tokens_join (left : Phrase) (operator : Operator) (right : Phrase) :
    (left.join operator right).tokens = left.tokens ++ .infixed operator :: right.tokens := by
  match left with
  | .last minuses primary => simp [join, tokens]
  | .more minuses primary inner rest => simp [join, tokens, tokens_join rest operator right]

theorem operands_join (left : Phrase) (operator : Operator) (right : Phrase) :
    (left.join operator right).operands kind =
      ((left.operands kind).1,
        (left.operands kind).2 ++
          (operator, (right.operands kind).1) :: (right.operands kind).2) := by
  match left with
  | .last minuses primary => simp [join, operands]
  | .more minuses primary inner rest =>
      simp [join, operands, operands_join rest operator right]

theorem exists_of_minuses_eq_ok {count : Nat} {operand : Except ReadError Expr} {expr : Expr}
    (read : Expr.minuses kind count operand = .ok expr) : ∃ inner, operand = .ok inner := by
  induction count generalizing expr with
  | zero => exact ⟨expr, read⟩
  | succ count inductionHypothesis =>
      cases taken : Expr.minuses kind count operand with
      | error error => simp [Expr.minuses, taken, Except.bind] at read
      | ok inner => exact inductionHypothesis taken

theorem names_join {left : Phrase} {first : Expr} {others : List (Operator × Expr)}
    (read : left.operands kind = (.ok first, others.map fun entry => (entry.1, .ok entry.2)))
    (operator : Operator) (right : Phrase) :
    (left.join operator right).names kind = left.names kind ++ right.names kind := by
  match left with
  | .last minuses primary =>
      obtain ⟨inner, taken⟩ := exists_of_minuses_eq_ok (congrArg Prod.fst read)
      simp [join, names, taken]
  | .more minuses primary inner rest =>
      obtain ⟨value, taken⟩ := exists_of_minuses_eq_ok (congrArg Prod.fst read)
      cases others with
      | nil => cases congrArg Prod.snd read
      | cons entry others =>
          have tail : rest.operands kind =
              (.ok entry.2, others.map fun entry => (entry.1, .ok entry.2)) := by
            have entries := congrArg Prod.snd read
            simp only [operands, List.map_cons, List.cons.injEq, Prod.mk.injEq] at entries
            exact Prod.ext entries.1.2 entries.2
          simp [join, names, taken, names_join tail]

end Phrase

/-- The text is read as the operands and the operators of the arrangement. -/
def IsLevel (kind : Kind) (text : List Char) (arrangement : Arrangement Expr) : Prop :=
  ∃ phrase : Phrase, Spells text phrase.tokens ∧
    phrase.operands kind = (.ok arrangement.row.1,
      arrangement.row.2.map fun entry => (entry.1, .ok entry.2)) ∧
    phrase.names kind = arrangement.expr.names

namespace IsLevel

variable {kind : Kind} {text : List Char} {arrangement : Arrangement Expr}

theorem ofPrimary (primary : Primary) {expr : Expr} (spells : Spells text primary.tokens)
    (read : primary.expr kind = .ok expr) (names : primary.names kind = expr.names) :
    IsLevel kind text (.operand expr) := by
  refine ⟨.last 0 primary, ?_, ?_, ?_⟩
  · simpa [Phrase.tokens] using spells
  · simp [Phrase.operands, Expr.minuses, read, Arrangement.row]
  · simpa [Phrase.names, Arrangement.expr] using names

theorem ofLiteral {lexeme : Decimal.Lexeme} {value : Number} (negative : Bool)
    (formed : lexeme.Formed)
    (read : kind.literal? (Number.Written.withSign negative lexeme.chars) = some value) :
    IsLevel kind (Number.Written.withSign negative lexeme.chars) (.operand (.number value)) := by
  apply ofPrimary (.number _) (spells_literal formed negative)
  · simp [Primary.expr, read]
  · rfl

theorem ofName {name : String} (named : isName name.toList = true) :
    IsLevel kind name.toList (.operand (.variable name)) := by
  apply ofPrimary (.name _) (spells_name named)
  · simp [Primary.expr]
  · simp [Primary.names, Expr.names]

theorem join {left right : List Char} {before after : Arrangement Expr}
    (leftLevel : IsLevel kind left before) (operator : Operator)
    (rightLevel : IsLevel kind right after) :
    IsLevel kind (left ++ ' ' :: operator.symbol :: ' ' :: right)
      (.node operator before after) := by
  obtain ⟨leftPhrase, leftSpells, leftRead, leftNames⟩ := leftLevel
  obtain ⟨rightPhrase, rightSpells, rightRead, rightNames⟩ := rightLevel
  refine ⟨leftPhrase.join operator rightPhrase, ?_, ?_, ?_⟩
  · rw [Phrase.tokens_join]
    exact spells_binary operator leftSpells rightSpells
  · simp [Phrase.operands_join, leftRead, rightRead, Arrangement.row]
  · rw [Phrase.names_join leftRead, leftNames, rightNames]
    rfl

theorem expr_eq {phrase : Phrase}
    (read : phrase.operands kind = (.ok arrangement.row.1,
      arrangement.row.2.map fun entry => (entry.1, .ok entry.2)))
    (proper : arrangement.Proper) (accepted : arrangement.Accepted) :
    phrase.expr kind = .ok arrangement.expr := by
  rw [Phrase.expr_eq_ofArrangement read, Arrangement.ofRow_row proper,
    Expr.ofArrangement_of_accepted accepted]

theorem parentheses (level : IsLevel kind text arrangement) (proper : arrangement.Proper)
    (accepted : arrangement.Accepted) :
    IsLevel kind ('(' :: (text ++ [')'])) (.operand arrangement.expr) := by
  obtain ⟨phrase, spells, read, names⟩ := level
  apply ofPrimary (.parentheses phrase) (spells_parentheses spells)
  · exact expr_eq read proper accepted
  · exact names

theorem read (level : IsLevel kind text arrangement) (proper : arrangement.Proper)
    (accepted : arrangement.Accepted) : Expr.read kind text = .ok arrangement.expr := by
  obtain ⟨phrase, spells, read, -⟩ := level
  rw [Expr.read, Phrase.read_of_spells spells]
  exact expr_eq read proper accepted

theorem namesRead (level : IsLevel kind text arrangement) :
    Expr.namesRead kind text = arrangement.expr.names := by
  obtain ⟨phrase, spells, -, names⟩ := level
  rw [Expr.namesRead, Phrase.read_of_spells spells]
  exact names

end IsLevel

end Grammar

/-! ### Texts of expressions -/

namespace Expr

def operator? : Expr → Option Operator
  | binary operator _ _ => some operator
  | _ => none

def enclosed (parentheses : Bool) (text : List Char) : List Char :=
  if parentheses then '(' :: (text ++ [')']) else text

/-- The text of an expression. -/
def written : Expr → List Char
  | number value => value.source.toList
  | .variable name => name.toList
  | binary operator left right =>
      enclosed (operator.enclosesLeft left.operator?) left.written ++
        ' ' :: operator.symbol :: ' ' ::
          enclosed (operator.enclosesRight right.operator?) right.written

/-- The expression as which an expression is read back: numbers without a literal are
the quotients as which they are written. -/
def spelled : Expr → Expr
  | number value => value.spelled
  | .variable name => .variable name
  | binary operator left right => binary operator left.spelled right.spelled

/-- There is no assignment in the expression. -/
def isPlain : Expr → Bool
  | binary operator left right => operator ≠ .assign && left.isPlain && right.isPlain
  | _ => true

/-- An assignment stands at the top, if anywhere, and it is made to a variable. -/
def isLawful : Expr → Bool
  | binary operator left right =>
      (operator ≠ .assign || left.isVariable) && left.isPlain && right.isPlain
  | _ => true

def constants : Expr → List Number
  | number value => [value]
  | .variable _ => []
  | binary _ left right => left.constants ++ right.constants

theorem isLawful_of_isPlain {expr : Expr} (plain : expr.isPlain = true) :
    expr.isLawful = true := by
  cases expr with
  | binary operator left right =>
      simp only [isPlain, Bool.and_eq_true] at plain
      simp [isLawful, plain]
  | _ => rfl

theorem isAssignment_of_isPlain {expr : Expr} (plain : expr.isPlain = true) :
    expr.isAssignment = false := by
  cases expr with
  | binary operator left right =>
      rw [isAssignment_binary]
      simp only [isPlain, Bool.and_eq_true, decide_eq_true_eq] at plain
      simp [plain]
  | _ => rfl

theorem isAssignment_spelled (expr : Expr) : expr.spelled.isAssignment = expr.isAssignment := by
  cases expr with
  | number value =>
      cases finite : value.isFinite with
      | true => rw [spelled, Number.spelled_of_isFinite finite]
      | false =>
          obtain ⟨_, _, _, _, -, -, -, -, quotient⟩ := Number.source_of_not_isFinite finite
          rw [spelled, quotient]
          rfl
  | «variable» name => rfl
  | binary operator left right => simp [spelled, isAssignment_binary]

theorem spelled_of_isVariable {expr : Expr} (named : expr.isVariable = true) :
    expr.spelled = expr := by
  cases expr with
  | «variable» name => rfl
  | _ => cases named

theorem spelled_of_isFinite {expr : Expr}
    (finite : ∀ value ∈ expr.constants, value.isFinite = true) :
    expr.spelled = expr := by
  induction expr with
  | number value => exact Number.spelled_of_isFinite (finite value List.mem_cons_self)
  | «variable» name => rfl
  | binary operator left right leftHypothesis rightHypothesis =>
      rw [spelled, leftHypothesis, rightHypothesis]
      · intro value member
        exact finite value (List.mem_append_right _ member)
      · intro value member
        exact finite value (List.mem_append_left _ member)

/-! ### The arrangement of an expression -/

/-- The level of an expression, in which the operands in parentheses are single. -/
def level : Expr → Arrangement Expr
  | binary operator left right =>
      .node operator
        (if operator.enclosesLeft left.operator? then .operand left.spelled else left.level)
        (if operator.enclosesRight right.operator? then .operand right.spelled else right.level)
  | expr => .operand expr.spelled

theorem expr_level (expr : Expr) : expr.level.expr = expr.spelled := by
  induction expr with
  | binary operator left right leftHypothesis rightHypothesis =>
      simp only [level, Arrangement.expr, spelled, binary.injEq, true_and]
      constructor
      · split
        next => rfl
        next => exact leftHypothesis
      · split
        next => rfl
        next => exact rightHypothesis
  | _ => rfl

theorem expr_ite_level (parentheses : Prop) [Decidable parentheses] (expr : Expr) :
    (if parentheses then .operand expr.spelled else expr.level : Arrangement Expr).expr =
      expr.spelled := by
  split
  next => rfl
  next => exact expr_level expr

theorem top?_level (expr : Expr) : expr.level.top? = expr.operator? := by
  cases expr <;> rfl

theorem proper_level (expr : Expr) : expr.level.Proper := by
  induction expr with
  | binary operator left right leftHypothesis rightHypothesis =>
      refine ⟨?_, ?_, ?_, ?_⟩
      · split
        next => trivial
        next => exact leftHypothesis
      · split
        next => trivial
        next => exact rightHypothesis
      · intro inner top
        split at top
        next => cases top
        next bare =>
          rw [top?_level] at top
          rw [standsLeft]
          simp only [Operator.enclosesLeft, top, Bool.or_eq_true, Bool.and_eq_true,
            decide_eq_true_eq] at bare
          cases inner <;> cases operator <;> simp_all [Operator.priority,
            Operator.isRightAssociative]
      · intro inner top
        split at top
        next => cases top
        next bare =>
          rw [top?_level] at top
          simp only [Operator.enclosesRight, top, decide_eq_true_eq] at bare
          exact .inl (by omega)
  | _ => trivial

theorem accepted_level {expr : Expr} (lawful : expr.isLawful = true) : expr.level.Accepted := by
  induction expr with
  | binary operator left right leftHypothesis rightHypothesis =>
      simp only [isLawful, Bool.and_eq_true, Bool.or_eq_true, decide_eq_true_eq] at lawful
      obtain ⟨⟨target, leftPlain⟩, rightPlain⟩ := lawful
      refine ⟨?_, ?_, ?_, ?_, ?_⟩
      · split
        next => trivial
        next => exact leftHypothesis (isLawful_of_isPlain leftPlain)
      · split
        next => trivial
        next => exact rightHypothesis (isLawful_of_isPlain rightPlain)
      · rw [expr_ite_level, isAssignment_spelled, isAssignment_of_isPlain leftPlain]
      · rw [expr_ite_level, isAssignment_spelled, isAssignment_of_isPlain rightPlain]
      · intro assign
        have named := target.resolve_left fun other => other assign
        rwa [expr_ite_level, spelled_of_isVariable named]
  | _ => trivial

/-! ### Reading the text -/

/-- The names of the expression are names, and its numbers are of the kind. -/
def IsSpellable (kind : Kind) (expr : Expr) : Prop :=
  (∀ name ∈ expr.names, isName name.toList = true) ∧ ∀ value ∈ expr.constants, value.kind = kind

theorem isLevel_source {kind : Kind} {value : Number} (typed : value.kind = kind) :
    IsLevel kind value.source.toList (.operand value.spelled) := by
  subst typed
  cases finite : value.isFinite with
  | true =>
      obtain ⟨negative, lexeme, formed, text, read⟩ := Number.source_of_isFinite finite
      rw [Number.spelled_of_isFinite finite]
      rw [text] at read ⊢
      exact IsLevel.ofLiteral negative formed read
  | false =>
      obtain ⟨negative, lexeme, dividend, divisor, formed, text, above, below, quotient⟩ :=
        Number.source_of_not_isFinite finite
      have level := (IsLevel.ofLiteral negative formed above).join .divide
        (IsLevel.ofLiteral false Decimal.formed_zero below)
      rw [text, quotient]
      have whole := level.parentheses ⟨trivial, trivial, by simp [Arrangement.top?], by
        simp [Arrangement.top?]⟩ ⟨trivial, trivial, rfl, rfl, by simp⟩
      simpa [Operator.symbol, Number.Written.withSign, Arrangement.expr] using whole

theorem isLevel_enclosed {kind : Kind} {expr : Expr} (lawful : expr.isLawful = true)
    (level : IsLevel kind expr.written expr.level) (parentheses : Bool) :
    IsLevel kind (enclosed parentheses expr.written)
      (if parentheses then .operand expr.spelled else expr.level) := by
  cases parentheses with
  | true =>
      have whole := level.parentheses (proper_level expr) (accepted_level lawful)
      rwa [expr_level] at whole
  | false => exact level

theorem isLevel_written {kind : Kind} {expr : Expr} (lawful : expr.isLawful = true)
    (spellable : expr.IsSpellable kind) : IsLevel kind expr.written expr.level := by
  induction expr with
  | number value => exact isLevel_source (spellable.2 value List.mem_cons_self)
  | «variable» name => exact IsLevel.ofName (spellable.1 name List.mem_cons_self)
  | binary operator left right leftHypothesis rightHypothesis =>
      obtain ⟨names, constants⟩ := spellable
      simp only [isLawful, Bool.and_eq_true] at lawful
      have leftLawful := isLawful_of_isPlain lawful.1.2
      have rightLawful := isLawful_of_isPlain lawful.2
      have leftLevel := leftHypothesis leftLawful
        ⟨fun name member => names name (List.mem_append_left _ member),
          fun value member => constants value (List.mem_append_left _ member)⟩
      have rightLevel := rightHypothesis rightLawful
        ⟨fun name member => names name (List.mem_append_right _ member),
          fun value member => constants value (List.mem_append_right _ member)⟩
      exact (isLevel_enclosed leftLawful leftLevel _).join operator
        (isLevel_enclosed rightLawful rightLevel _)

/-- Reading undoes writing. -/
theorem read_written {kind : Kind} {expr : Expr} (lawful : expr.isLawful = true)
    (spellable : expr.IsSpellable kind) : Expr.read kind expr.written = .ok expr.spelled := by
  have level := isLevel_written lawful spellable
  rw [level.read (proper_level expr) (accepted_level lawful), expr_level]

end Expr

end Worksheet
