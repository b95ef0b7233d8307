import Worksheet.Decimal.Lexeme
import Worksheet.Operator
import Worksheet.Text.Blank

/-!
Tokens of expressions, and cutting text into them.

What a minus means depends on where it stands.  Where an operand may begin, it is
part of a number if a digit or a point follows it directly, and a negation
otherwise; after an operand it subtracts.  Hence the scanner keeps track of the
place it has reached, and it reports the first place where no token fits.
-/

namespace Worksheet.Grammar

open Decimal Text

inductive Token where
  | number (text : List Char)
  | name (text : List Char)
  | negation
  | opening
  | closing
  | infixed (operator : Operator)
deriving DecidableEq, Repr

/-- A place between two tokens, by what has to come next. -/
inductive Place where
  /-- At the beginning of the text or of a parenthesis. -/
  | start
  /-- After an operator or a negation. -/
  | operand
  /-- After a complete operand. -/
  | after
deriving DecidableEq, Repr

def Token.next : Token → Place
  | opening => .start
  | negation | infixed _ => .operand
  | number _ | name _ | closing => .after

def Token.depth (depth : Nat) : Token → Nat
  | opening => depth + 1
  | closing => depth - 1
  | _ => depth

def isNameStart (c : Char) : Bool :=
  c.isAlpha || c = '_'

def isNameChar (c : Char) : Bool :=
  c.isAlphanum || c = '_'

def startsNumber : List Char → Bool
  | [] => false
  | c :: _ => c.isDigit || c = '.'

/-- The longest number without a sign at the start of the text. -/
def unsigned? (text : List Char) : Option (List Char × List Char) :=
  (Lexeme.read? text).map fun (_, rest) => (text.take (text.length - rest.length), rest)

def operandToken? : List Char → Option (Token × List Char)
  | [] => none
  | c :: text =>
      if c = '(' then some (.opening, text)
      else if c = '-' then
        if startsNumber text then
          (unsigned? text).map fun (digits, rest) => (.number ('-' :: digits), rest)
        else some (.negation, text)
      else if startsNumber (c :: text) then
        (unsigned? (c :: text)).map fun (digits, rest) => (.number digits, rest)
      else if isNameStart c then
        some (.name (c :: text.takeWhile isNameChar), text.dropWhile isNameChar)
      else none

def operatorToken? : List Char → Option (Token × List Char)
  | [] => none
  | c :: text =>
      if c = ')' then some (.closing, text)
      else (Operator.ofSymbol? c).map fun operator => (.infixed operator, text)

def token? (place : Place) (text : List Char) : Option (Token × List Char) :=
  match place with
  | .start | .operand => operandToken? text
  | .after => operatorToken? text

theorem length_lt_of_unsigned? {text digits rest : List Char}
    (found : unsigned? text = some (digits, rest)) : rest.length < text.length := by
  obtain ⟨⟨lexeme, tail⟩, read, same⟩ := Option.map_eq_some_iff.mp found
  cases same
  exact Lexeme.length_lt_of_read? read

theorem length_lt_of_operandToken? {text rest : List Char} {token : Token}
    (found : operandToken? text = some (token, rest)) : rest.length < text.length := by
  unfold operandToken? at found
  split at found
  · cases found
  next c tail =>
    repeat' split at found
    · cases found
      exact Nat.lt_succ_self _
    · obtain ⟨⟨digits, after⟩, read, same⟩ := Option.map_eq_some_iff.mp found
      cases same
      exact Nat.lt_succ_of_lt (length_lt_of_unsigned? read)
    · cases found
      exact Nat.lt_succ_self _
    · obtain ⟨⟨digits, after⟩, read, same⟩ := Option.map_eq_some_iff.mp found
      cases same
      exact length_lt_of_unsigned? read
    · cases found
      have run := Lexeme.length_takeWhile_add_dropWhile isNameChar tail
      rw [List.length_cons]
      omega
    · cases found

theorem length_lt_of_operatorToken? {text rest : List Char} {token : Token}
    (found : operatorToken? text = some (token, rest)) : rest.length < text.length := by
  unfold operatorToken? at found
  split at found
  · cases found
  next c tail =>
    split at found
    · cases found
      exact Nat.lt_succ_self _
    · obtain ⟨operator, read, same⟩ := Option.map_eq_some_iff.mp found
      cases same
      exact Nat.lt_succ_self _

theorem length_lt_of_token? {place : Place} {text rest : List Char} {token : Token}
    (found : token? place text = some (token, rest)) : rest.length < text.length := by
  cases place
  · exact length_lt_of_operandToken? found
  · exact length_lt_of_operandToken? found
  · exact length_lt_of_operatorToken? found

/-- Where the text stops making sense: the place reached, the parentheses open
there, and the text from there on. -/
structure Mismatch where
  place : Place
  depth : Nat
  rest : List Char
deriving DecidableEq, Repr

/-- The tokens of the text from a place with open parentheses. -/
def scan (place : Place) (depth : Nat) (text : List Char) : Except Mismatch (List Token) :=
  let rest := text.dropWhile isLayout
  if place = .after ∧ rest = [] then .ok []
  else
    match _found : token? place rest with
    | none => .error ⟨place, depth, rest⟩
    | some (token, tail) =>
        (scan token.next (token.depth depth) tail).map (token :: ·)
termination_by text.length
decreasing_by
  have run := Lexeme.length_takeWhile_add_dropWhile isLayout text
  have shorter : tail.length < (text.dropWhile isLayout).length := length_lt_of_token? _found
  omega

def tokenize (text : List Char) : Except Mismatch (List Token) :=
  scan .start 0 text

/-- Whether every parenthesis of the text is closed, and none is closed twice. -/
def balanced (depth : Nat) : List Char → Bool
  | [] => depth = 0
  | c :: text =>
      if c = '(' then balanced (depth + 1) text
      else if c = ')' then depth ≠ 0 && balanced (depth - 1) text
      else balanced depth text

end Worksheet.Grammar
