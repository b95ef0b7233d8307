import Worksheet.Grammar.Token

/-!
Phrases: operands and operators in the order in which they are written.

A phrase is a whole expression or the content of one pair of parentheses.  It
knows nothing yet of which operator binds more tightly.
-/

namespace Worksheet.Grammar

mutual

/-- What an operand is once its minuses are taken off. -/
inductive Primary where
  | number (text : List Char)
  | name (text : List Char)
  | parentheses (content : Phrase)

/-- Operands with their minuses, and an operator between each two. -/
inductive Phrase where
  | last (minuses : Nat) (primary : Primary)
  | more (minuses : Nat) (primary : Primary) (operator : Operator) (rest : Phrase)

end

mutual

def Primary.tokens : Primary → List Token
  | .number text => [.number text]
  | .name text => [.name text]
  | .parentheses content => .opening :: (content.tokens ++ [.closing])

def Phrase.tokens : Phrase → List Token
  | .last minuses primary => List.replicate minuses .negation ++ primary.tokens
  | .more minuses primary operator rest =>
      List.replicate minuses .negation ++ primary.tokens ++ .infixed operator :: rest.tokens

end

end Worksheet.Grammar
