import Worksheet.Operator
import Worksheet.Text.Blank

/-!
The grammar of expressions as a parsing expression grammar.

A choice takes the first alternative that fits and a repetition takes all it can get, and
neither is taken back.  Layout is skipped between the parts of a rule unless the rule is
atomic.  Where a rule stands in a text is told by what is left of the text there.
-/

namespace Worksheet.Grammar

open Text

inductive Rule where
  | calculation
  | expr
  | term
  | primary
  | infixed
  | operation (operator : Operator)
  | neg
  | number
  | identifier
  | endOfInput
deriving DecidableEq, Repr

inductive Peg where
  | nothing
  | one (accepts : Char → Bool)
  | rule (rule : Rule)
  | sequence (first second : Peg)
  | choice (first second : Peg)
  | many (part : Peg)
  /-- The repetitions of a part that come after the first one. -/
  | further (part : Peg)
  /-- The part does not stand here.  Nothing is taken. -/
  | absent (part : Peg)
  | start
  | finish

namespace Peg

instance : AndThen Peg := ⟨fun first second => .sequence first (second ())⟩

instance : OrElse Peg := ⟨fun first second => .choice first (second ())⟩

def letter (c : Char) : Peg := .one (· = c)

def digit : Peg := .one Char.isDigit

def optional (part : Peg) : Peg := part <|> .nothing

def atLeastOne (part : Peg) : Peg := part >> .many part

/-- Digits around a point.  They may be missing on one side of it, and so may the point. -/
def mantissa : Peg :=
  atLeastOne digit >> optional (letter '.' >> .many digit) <|> letter '.' >> atLeastOne digit

def exponent : Peg :=
  .one (fun c => c = 'e' || c = 'E') >> optional (letter '+' <|> letter '-') >> atLeastOne digit

end Peg

/-! ### The rules -/

/-- What a rule adds to the pairs: only the pairs of its parts, a pair of its own around
them, or a pair without parts, in which no layout is skipped. -/
inductive Mode where
  | silent
  | normal
  | atomic
deriving DecidableEq

namespace Rule

open Peg

def mode : Rule → Mode
  | calculation | term | primary | infixed => .silent
  | expr | operation _ | endOfInput => .normal
  | neg | number | identifier => .atomic

def body : Rule → Peg
  | calculation => .start >> .rule expr >> .rule endOfInput
  | expr => .rule term >> .many (.rule infixed >> .rule term)
  | term => .many (.rule neg) >> .rule primary
  | primary => .rule number <|> .rule identifier <|> letter '(' >> .rule expr >> letter ')'
  | infixed =>
      .rule (operation .assign) <|> .rule (operation .add) <|> .rule (operation .subtract) <|>
        .rule (operation .multiply) <|> .rule (operation .divide) <|> .rule (operation .power)
  | operation operator => letter operator.symbol
  | neg => letter '-' >> .absent (digit <|> letter '.')
  | number => optional (letter '-') >> mantissa >> optional exponent
  | identifier =>
      (.one Char.isAlpha <|> letter '_') >> .many (.one Char.isAlphanum <|> letter '_')
  | endOfInput => .finish

end Rule

/-! ### Runs -/

/-- A rule that has been found in the text, with the rules found in it. -/
structure Pair where
  rule : Rule
  text : List Char
  inner : List Pair

/-- The pairs found and the rest of the text, if the form stands there. -/
abbrev Outcome := Option (List Pair × List Char)

/-- The part of the text before the rest. -/
def consumed (text rest : List Char) : List Char :=
  text.take (text.length - rest.length)

def Rule.pairs (rule : Rule) (text : List Char) (inner : List Pair) : List Pair :=
  match rule.mode with
  | .silent => inner
  | .normal => [⟨rule, text, inner⟩]
  | .atomic => [⟨rule, text, []⟩]

/-- Where the next part is looked for. -/
def skip (atomic : Bool) (text : List Char) : List Char :=
  if atomic then text else text.dropWhile isLayout

/-- What comes of looking for a form at a place of the whole text. -/
inductive Runs (whole : List Char) : Bool → Peg → List Char → Outcome → Prop where
  | nothing {atomic text} : Runs whole atomic .nothing text (some ([], text))
  | one {atomic accepts c text} : accepts c = true →
      Runs whole atomic (.one accepts) (c :: text) (some ([], text))
  | notOne {atomic accepts text} : (∀ c ∈ text.head?, accepts c = false) →
      Runs whole atomic (.one accepts) text none
  | rule {atomic rule text inner rest} :
      Runs whole (atomic || rule.mode = .atomic) rule.body text (some (inner, rest)) →
      Runs whole atomic (.rule rule) text
        (some (rule.pairs (consumed text rest) inner, rest))
  | notRule {atomic rule text} :
      Runs whole (atomic || rule.mode = .atomic) rule.body text none →
      Runs whole atomic (.rule rule) text none
  | sequence {atomic first second text pairs middle others rest} :
      Runs whole atomic first text (some (pairs, middle)) →
      Runs whole atomic second (skip atomic middle) (some (others, rest)) →
      Runs whole atomic (.sequence first second) text (some (pairs ++ others, rest))
  | notFirst {atomic first second text} : Runs whole atomic first text none →
      Runs whole atomic (.sequence first second) text none
  | notSecond {atomic first second text pairs middle} :
      Runs whole atomic first text (some (pairs, middle)) →
      Runs whole atomic second (skip atomic middle) none →
      Runs whole atomic (.sequence first second) text none
  | chosen {atomic first second text found} : Runs whole atomic first text (some found) →
      Runs whole atomic (.choice first second) text (some found)
  | otherwise {atomic first second text outcome} : Runs whole atomic first text none →
      Runs whole atomic second text outcome →
      Runs whole atomic (.choice first second) text outcome
  | many {atomic part text pairs middle others rest} :
      Runs whole atomic part text (some (pairs, middle)) →
      Runs whole atomic (.further part) middle (some (others, rest)) →
      Runs whole atomic (.many part) text (some (pairs ++ others, rest))
  | notMany {atomic part text} : Runs whole atomic part text none →
      Runs whole atomic (.many part) text (some ([], text))
  | further {atomic part text pairs middle others rest} :
      Runs whole atomic part (skip atomic text) (some (pairs, middle)) →
      Runs whole atomic (.further part) middle (some (others, rest)) →
      Runs whole atomic (.further part) text (some (pairs ++ others, rest))
  | notFurther {atomic part text} : Runs whole atomic part (skip atomic text) none →
      Runs whole atomic (.further part) text (some ([], text))
  | absent {atomic part text} : Runs whole atomic part text none →
      Runs whole atomic (.absent part) text (some ([], text))
  | notAbsent {atomic part text found} : Runs whole atomic part text (some found) →
      Runs whole atomic (.absent part) text none
  | start {atomic} : Runs whole atomic .start whole (some ([], whole))
  | notStart {atomic text} : text ≠ whole → Runs whole atomic .start text none
  | finish {atomic} : Runs whole atomic .finish [] (some ([], []))
  | notFinish {atomic text} : text ≠ [] → Runs whole atomic .finish text none

end Worksheet.Grammar
