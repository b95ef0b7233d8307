import Worksheet.Expr.Basic
import Worksheet.Grammar.Assembly
import Worksheet.Grammar.Precedence
import Worksheet.Number.Read
import Worksheet.ReadError

/-!
Reading expressions.

The text of one expression is first read as a phrase, without regard to what the
numbers and names in it mean.  The operands of the phrase are then read from left
to right, and its operators applied by precedence.  An operand that fails ends
the reading of its phrase, so the names after it are not taken notice of; a
refused operator does not.
-/

namespace Worksheet

open Grammar Text

namespace Expr

/-- The expression with a minus in front.  A number takes the minus up. -/
def negated (kind : Kind) : Expr → Except ReadError Expr
  | .number value => .ok (.number value.negate)
  | .variable name => .ok (.binary .multiply (.number kind.one.negate) (.variable name))
  | .binary operator left right =>
      if operator = .assign then .error (.malformedAssignment .negated)
      else .ok (.binary .multiply (.number kind.one.negate) (.binary operator left right))

/-- Two operands under an operator.  An assignment is never an operand, and only
a variable can be assigned to. -/
def combined (operator : Operator) (left right : Expr) : Except ReadError Expr :=
  if left.isAssignment || right.isAssignment then
    .error (.malformedAssignment (.operandOf operator))
  else if operator = .assign && !left.isVariable then
    .error (.malformedAssignment .targetNotVariable)
  else .ok (.binary operator left right)

/-- Applies the operators of an arrangement.  An error of the left operand goes
before one of the right operand, and both before the operator's own. -/
def ofArrangement : Arrangement (Except ReadError Expr) → Except ReadError Expr
  | .operand value => value
  | .node operator left right => do
      let left ← ofArrangement left
      let right ← ofArrangement right
      combined operator left right

/-- An operand with its minuses, the innermost applied first. -/
def minuses (kind : Kind) : Nat → Except ReadError Expr → Except ReadError Expr
  | 0, operand => operand
  | count + 1, operand => (minuses kind count operand).bind (negated kind)

end Expr

namespace Grammar

mutual

def Primary.expr (kind : Kind) : Primary → Except ReadError Expr
  | .number text =>
      match kind.literal? text with
      | some value => .ok (.number value)
      | none => .error (.invalidLiteral (String.ofList text) kind)
  | .name text => .ok (.variable (String.ofList text))
  | .parentheses content =>
      Expr.ofArrangement (Arrangement.ofRow (content.operands kind).1 (content.operands kind).2)

/-- The operands of a phrase: the first, and the others with the operators before them. -/
def Phrase.operands (kind : Kind) :
    Phrase → Except ReadError Expr × List (Operator × Except ReadError Expr)
  | .last minuses primary => (Expr.minuses kind minuses (primary.expr kind), [])
  | .more minuses primary operator rest =>
      (Expr.minuses kind minuses (primary.expr kind),
        (operator, (rest.operands kind).1) :: (rest.operands kind).2)

end

def Phrase.expr (kind : Kind) (phrase : Phrase) : Except ReadError Expr :=
  Expr.ofArrangement (Arrangement.ofRow (phrase.operands kind).1 (phrase.operands kind).2)

mutual

def Primary.names (kind : Kind) : Primary → List String
  | .number _ => []
  | .name text => [String.ofList text]
  | .parentheses content => content.names kind

/-- The names read in a phrase, up to its first operand that fails. -/
def Phrase.names (kind : Kind) : Phrase → List String
  | .last _ primary => primary.names kind
  | .more _ primary _ rest =>
      primary.names kind ++
        match primary.expr kind with
        | .ok _ => rest.names kind
        | .error _ => []

end

/-- What a mismatch means.  Every character before it is a single byte. -/
def Mismatch.error (text : List Char) (mismatch : Mismatch) : ReadError :=
  let position := text.length - mismatch.rest.length + 1
  match mismatch.place with
  | .start => .unexpected .expression position
  | .operand =>
      if allBlank mismatch.rest then .missingOperand else .unexpected .operand position
  | .after =>
      .unexpected (if mismatch.depth = 0 then .operatorOrEnd else .operatorInside) position

/-- The phrase of a text.  Blank text and unbalanced parentheses are found out first. -/
def Phrase.read (text : List Char) : Except ReadError Phrase :=
  if allBlank text then .error .missingOperand
  else if !balanced 0 text then .error .unbalancedParentheses
  else
    match tokenize text with
    | .error mismatch => .error (mismatch.error text)
    | .ok tokens =>
        match ofTokens? tokens with
        | some phrase => .ok phrase
        | none => .error .unbalancedParentheses

end Grammar

namespace Expr

def read (kind : Kind) (text : List Char) : Except ReadError Expr :=
  (Phrase.read text).bind (·.expr kind)

/-- The names that are read with the expression, also when it is refused. -/
def namesRead (kind : Kind) (text : List Char) : List String :=
  match Phrase.read text with
  | .ok phrase => phrase.names kind
  | .error _ => []

end Expr

end Worksheet
