import Worksheet.Dialect
import Worksheet.Proofs.Expr.Reading

/-!
# The texts that are accepted

A text is refused for its form if and only if the grammar does not derive it.  Where it is
derived, only the values of its literals and the places of its assignments can still be
wrong.
-/

namespace Worksheet

open Grammar Text

def ReadError.isFormal : ReadError → Bool
  | .missingOperand | .unbalancedParentheses | .unexpected _ _ => true
  | .malformedAssignment _ | .invalidLiteral _ _ | .nothingGiven => false

/-- The text has the form of an expression, but it does not stand for one. -/
def ReadError.IsRefusal (kind : Kind) : ReadError → Prop
  | .malformedAssignment _ => True
  | .invalidLiteral _ other => other = kind
  | .missingOperand | .unbalancedParentheses | .unexpected _ _ | .nothingGiven => False

/-! ### Errors of operands and operators -/

/-- An expression, or an error that is not one of form. -/
def Sensible (kind : Kind) (answer : Except ReadError Expr) : Prop :=
  ∀ error, answer = .error error → error.IsRefusal kind

namespace Sensible

variable {kind : Kind}

theorem ok (expr : Expr) : Sensible kind (.ok expr) := by
  intro error read
  cases read

theorem error {error : ReadError} (refusal : error.IsRefusal kind) :
    Sensible kind (.error error) := by
  intro other read
  cases read
  exact refusal

theorem bind {answer : Except ReadError Expr} {next : Expr → Except ReadError Expr}
    (sensible : Sensible kind answer) (further : ∀ expr, Sensible kind (next expr)) :
    Sensible kind (answer.bind next) := by
  cases answer with
  | ok expr => exact further expr
  | error why => exact .error (sensible why rfl)

theorem negated (expr : Expr) : Sensible kind (expr.negated kind) := by
  cases expr with
  | number value => exact .ok _
  | «variable» name => exact .ok _
  | binary operator left right =>
      rw [Expr.negated]
      split
      · exact .error trivial
      · exact .ok _

theorem minuses {operand : Except ReadError Expr} (sensible : Sensible kind operand)
    (count : Nat) : Sensible kind (Expr.minuses kind count operand) := by
  induction count with
  | zero => exact sensible
  | succ count inductionHypothesis => exact inductionHypothesis.bind negated

theorem combined (operator : Operator) (left right : Expr) :
    Sensible kind (Expr.combined operator left right) := by
  unfold Expr.combined
  split
  · exact .error trivial
  · split
    · exact .error trivial
    · exact .ok _

theorem ofArrangement {arrangement : Arrangement (Except ReadError Expr)}
    (first : Sensible kind arrangement.row.1)
    (others : ∀ entry ∈ arrangement.row.2, Sensible kind entry.2) :
    Sensible kind (Expr.ofArrangement arrangement) := by
  induction arrangement with
  | operand value => exact first
  | node operator left right leftHypothesis rightHypothesis =>
      obtain ⟨before, here, after⟩ := List.forall_mem_append.mp others |>.imp_right
        List.forall_mem_cons.mp
      exact (leftHypothesis first before).bind fun low =>
        (rightHypothesis here after).bind fun high => combined operator low high

theorem ofRow {row : Except ReadError Expr × List (Operator × Except ReadError Expr)}
    (sensible : Sensible kind row.1 ∧ ∀ entry ∈ row.2, Sensible kind entry.2) :
    Sensible kind (Expr.ofArrangement (Arrangement.ofRow row.1 row.2)) := by
  apply ofArrangement <;> rw [Arrangement.row_ofRow]
  · exact sensible.1
  · exact sensible.2

end Sensible

namespace Grammar

mutual

theorem Primary.sensible (kind : Kind) (primary : Primary) :
    Sensible kind (primary.expr kind) := by
  match primary with
  | .number text =>
      rw [Primary.expr]
      split
      · exact .ok _
      · exact .error rfl
  | .name text => exact .ok _
  | .parentheses content => exact .ofRow (content.sensible_operands kind)

theorem Phrase.sensible_operands (kind : Kind) (phrase : Phrase) :
    Sensible kind (phrase.operands kind).1 ∧
      ∀ entry ∈ (phrase.operands kind).2, Sensible kind entry.2 := by
  match phrase with
  | .last minuses primary =>
      exact ⟨(primary.sensible kind).minuses minuses, by simp [Phrase.operands]⟩
  | .more minuses primary operator rest =>
      exact ⟨(primary.sensible kind).minuses minuses,
        List.forall_mem_cons.mpr (rest.sensible_operands kind)⟩

end

end Grammar

/-! ### The answer to a segment -/

theorem Expr.sensible_read {text : List Char} (kind : Kind) (calculation : Calculation text) :
    Sensible kind (Expr.read kind text) := by
  obtain ⟨phrase, read⟩ := calculation.read
  rw [Expr.read, read]
  exact .ofRow (phrase.sensible_operands kind)

/-- What keeps a text from being a phrase is its form. -/
theorem Grammar.Phrase.isFormal_of_read {text : List Char} {error : ReadError}
    (read : Phrase.read text = .error error) : error.isFormal = true := by
  unfold Phrase.read at read
  split at read
  next =>
    cases read
    rfl
  next =>
    split at read
    next =>
      cases read
      rfl
    next =>
      split at read
      next mismatch stuck =>
        cases read
        unfold Mismatch.error
        split
        · rfl
        · split <;> rfl
        · rfl
      next =>
        split at read
        next => cases read
        next =>
          cases read
          rfl

theorem Expr.exists_isFormal_iff (kind : Kind) (text : List Char) :
    (∃ error, Expr.read kind text = .error error ∧ error.isFormal = true) ↔
      ¬Calculation text := by
  constructor
  · rintro ⟨error, read, formal⟩ calculation
    have refusal := Expr.sensible_read kind calculation error read
    cases error <;> first | exact refusal | cases formal
  · intro underivable
    cases read : Phrase.read text with
    | ok phrase => exact absurd (exists_read_iff.mp ⟨phrase, read⟩) underivable
    | error error =>
        exact ⟨error, by rw [Expr.read, read]; rfl, Phrase.isFormal_of_read read⟩

theorem Expr.namesRead_of_not_calculation {kind : Kind} {text : List Char}
    (underivable : ¬Calculation text) : Expr.namesRead kind text = [] := by
  cases read : Phrase.read text with
  | error error => rw [namesRead, read]
  | ok phrase => exact absurd (exists_read_iff.mp ⟨phrase, read⟩) underivable

theorem Dialect.readSegments_singleton (dialect : Dialect) (table : Variables)
    (text : List Char) :
    (dialect.readSegments table [text]).1 =
      (Expr.read dialect.kind text).map fun expr => [expr] := by
  cases read : Expr.read dialect.kind text <;> simp [readSegments, read, Except.map]

theorem Dialect.table_readSegments_singleton (dialect : Dialect) (table : Variables)
    (text : List Char) :
    (dialect.readSegments table [text]).2 = dialect.declared table text := by
  cases read : Expr.read dialect.kind text <;> simp [readSegments, read]

theorem Dialect.read_of_readSegments {dialect : Dialect} {table : Variables} {text : List Char}
    {expr : Expr} (read : (dialect.readSegments table [text]).1 = .ok [expr]) :
    Expr.read dialect.kind text = .ok expr := by
  rw [dialect.readSegments_singleton] at read
  cases done : Expr.read dialect.kind text with
  | error error =>
      rw [done] at read
      cases read
  | ok found =>
      rw [done] at read
      cases read
      rfl

/-- A segment is refused for its form if and only if the grammar does not derive it.  A
segment that is derived is neither blank nor out of balance, its tokens make a phrase, and
it is answered by its expression, a literal without a value or a misplaced assignment. -/
theorem Dialect.accepts_calculations (dialect : Dialect) (table : Variables)
    (text : List Char) :
    let answer := (dialect.readSegments table [text]).1
    ((∃ error, answer = .error error ∧ error.isFormal = true) ↔ ¬Calculation text) ∧
      (Calculation text →
        (∃ expr, answer = .ok [expr]) ∨
          (∃ literal, answer = .error (.invalidLiteral literal dialect.kind)) ∨
          ∃ why, answer = .error (.malformedAssignment why)) ∧
      (Calculation text → allBlank text = false ∧ balanced 0 text = true) ∧
      ∀ tokens, tokenize text = .ok tokens → balanced 0 text = true →
        ∃ phrase, Phrase.ofTokens? tokens = some phrase := by
  intro answer
  have same : answer = (Expr.read dialect.kind text).map fun expr => [expr] :=
    dialect.readSegments_singleton table text
  refine ⟨?_, fun calculation => ?_, Calculation.filled, fun tokens => exists_ofTokens?⟩
  · rw [← Expr.exists_isFormal_iff dialect.kind text, same]
    cases Expr.read dialect.kind text <;> simp [Except.map]
  · have sensible := Expr.sensible_read dialect.kind calculation
    rw [same]
    cases read : Expr.read dialect.kind text with
    | ok expr => exact .inl ⟨expr, rfl⟩
    | error error =>
        have refusal := sensible error read
        cases error with
        | invalidLiteral literal kind =>
            cases refusal
            exact .inr (.inl ⟨literal, rfl⟩)
        | malformedAssignment why => exact .inr (.inr ⟨why, rfl⟩)
        | _ => cases refusal

end Worksheet
