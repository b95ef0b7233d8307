import Worksheet.Proofs.Grammar.Numeral

/-!
# Derivations

The grammar of expressions, as a relation between a text and what is left of it behind a
part of an expression.  The rest is an argument because the longest number, the longest
name and the meaning of a minus all depend on the characters that follow.

The scanner and the assembly of phrases accept exactly the texts that can be derived.  A
derivation tells the tokens into which the scanner cuts the text; conversely the phrase that
has been read tells the derivation.
-/

namespace Worksheet.Grammar

open Decimal Text

/-! ### The grammar -/

inductive Part where
  | term
  | expression

/-- The part stands at the start of the text, and the rest comes directly after it. -/
inductive Derives : Part → List Char → List Char → Prop where
  | number {digits rest : List Char} :
      Longest SignedNumeral digits rest → Derives .term (digits ++ rest) rest
  | name {name rest : List Char} :
      Longest (isName · = true) name rest → Derives .term (name ++ rest) rest
  | parentheses {text inner behind rest : List Char} :
      Gap text inner → Derives .expression inner behind → Gap behind (')' :: rest) →
      Derives .term ('(' :: text) rest
  /-- A minus that a digit or a point follows directly belongs to a number instead. -/
  | minus {text operand rest : List Char} :
      (∀ c ∈ text.head?, c.isDigit = false ∧ c ≠ '.') → Gap text operand →
      Derives .term operand rest → Derives .term ('-' :: text) rest
  | single {text rest : List Char} :
      Derives .term text rest → Derives .expression text rest
  | operation {text behind further right rest : List Char} (operator : Operator) :
      Derives .term text behind → Gap behind (operator.symbol :: further) →
      Gap further right → Derives .expression right rest → Derives .expression text rest

/-- The text is an expression from its first character to its last. -/
def Calculation (text : List Char) : Prop :=
  ∃ start rest, Gap text start ∧ Derives .expression start rest ∧ Gap rest []

/-! ### Single tokens -/

/-- The token stands at the start of the text, where an operand may begin. -/
def Token.Begins : Token → List Char → List Char → Prop
  | .number digits, text, rest => text = digits ++ rest ∧ Longest SignedNumeral digits rest
  | .name word, text, rest => text = word ++ rest ∧ Longest (isName · = true) word rest
  | .negation, text, rest =>
      text = '-' :: rest ∧ ∀ c ∈ rest.head?, c.isDigit = false ∧ c ≠ '.'
  | .opening, text, rest => text = '(' :: rest
  | .closing, _, _ | .infixed _, _, _ => False

theorem begins_of_operandToken? {text rest : List Char} {token : Token}
    (found : operandToken? text = some (token, rest)) : token.Begins text rest := by
  unfold operandToken? at found
  split at found
  next => cases found
  next c tail =>
    split at found
    next opening =>
      cases found
      rw [opening, Token.Begins]
    next =>
      split at found
      next minus =>
        subst minus
        split at found
        next =>
          obtain ⟨⟨digits, behind⟩, taken, same⟩ := Option.map_eq_some_iff.mp found
          cases same
          obtain ⟨rfl, longest⟩ := unsigned?_eq_some_iff.mp taken
          exact ⟨rfl, longest_signed_iff.mpr (.inr ⟨digits, rfl, longest⟩)⟩
        next sign =>
          cases found
          exact ⟨rfl, startsNumber_eq_false_iff.mp (eq_false_of_ne_true sign)⟩
      next =>
        split at found
        next =>
          obtain ⟨⟨digits, behind⟩, taken, same⟩ := Option.map_eq_some_iff.mp found
          cases same
          obtain ⟨whole, longest⟩ := unsigned?_eq_some_iff.mp taken
          exact ⟨whole, longest_signed_iff.mpr (.inl longest)⟩
        next =>
          split at found
          next start =>
            cases found
            exact ⟨by simp, longest_name start tail⟩
          next => cases found

/-- What an operand may begin with, told without the scanner. -/
theorem operandToken?_eq_some_iff {text rest : List Char} {token : Token} :
    operandToken? text = some (token, rest) ↔ token.Begins text rest := by
  refine ⟨begins_of_operandToken?, fun begins => ?_⟩
  cases token with
  | number digits =>
      obtain ⟨rfl, signed⟩ := begins
      rcases longest_signed_iff.mp signed with longest | ⟨unsigned, rfl, longest⟩
      · exact operandToken?_plain (longest.formed.startsNumber rest)
          (unsigned?_eq_some_iff.mpr ⟨rfl, longest⟩)
      · exact operandToken?_negative (longest.formed.startsNumber rest)
          (unsigned?_eq_some_iff.mpr ⟨rfl, longest⟩)
  | name word =>
      obtain ⟨rfl, longest⟩ := begins
      obtain ⟨named, clear⟩ := longest_name_iff.mp longest
      exact operandToken?_name named clear
  | negation =>
      obtain ⟨rfl, sign⟩ := begins
      simp [operandToken?, startsNumber_eq_false_iff.mpr sign]
  | opening =>
      cases begins
      rfl
  | closing | infixed => cases begins

theorem operatorToken?_eq_some_iff {text rest : List Char} {token : Token} :
    operatorToken? text = some (token, rest) ↔
      token = .closing ∧ text = ')' :: rest ∨
        ∃ operator, token = .infixed operator ∧ text = operator.symbol :: rest := by
  constructor
  · intro found
    unfold operatorToken? at found
    split at found
    next => cases found
    next c tail =>
      split at found
      next closing =>
        cases found
        exact .inl ⟨rfl, by rw [closing]⟩
      next =>
        obtain ⟨operator, symbol, same⟩ := Option.map_eq_some_iff.mp found
        cases same
        exact .inr ⟨operator, rfl, by rw [Operator.symbol_of_ofSymbol? symbol]⟩
  · rintro (⟨rfl, rfl⟩ | ⟨operator, rfl, rfl⟩)
    · rfl
    · exact operatorToken?_symbol operator rest

/-! ### What is derived is cut into tokens -/

/-- The tokens with which a part can be written. -/
def Part.IsWritten : Part → List Token → Prop
  | .term, tokens => ∃ minuses, ∃ primary : Primary,
      tokens = List.replicate minuses .negation ++ primary.tokens
  | .expression, tokens => ∃ phrase : Phrase, tokens = phrase.tokens

theorem Derives.cuts {part : Part} {text rest : List Char} (derives : Derives part text rest) :
    ∃ tokens, part.IsWritten tokens ∧ Cuts tokens text rest := by
  induction derives with
  | @number digits rest longest =>
      have found : operandToken? (digits ++ rest) = some (.number digits, rest) :=
        operandToken?_eq_some_iff.mpr ⟨rfl, longest⟩
      exact ⟨_, ⟨0, .number digits, rfl⟩, cuts_of_operandToken? found rfl fun _ => rfl⟩
  | @name name rest longest =>
      have found : operandToken? (name ++ rest) = some (.name name, rest) :=
        operandToken?_eq_some_iff.mpr ⟨rfl, longest⟩
      exact ⟨_, ⟨0, .name name, rfl⟩, cuts_of_operandToken? found rfl fun _ => rfl⟩
  | parentheses opened inside closed inductionHypothesis =>
      obtain ⟨tokens, ⟨phrase, rfl⟩, cuts⟩ := inductionHypothesis
      exact ⟨_, ⟨0, .parentheses phrase, rfl⟩, cuts.parentheses opened closed⟩
  | minus sign gap operand inductionHypothesis =>
      obtain ⟨tokens, ⟨minuses, primary, rfl⟩, cuts⟩ := inductionHypothesis
      exact ⟨_, ⟨minuses + 1, primary, rfl⟩,
        cuts.minus (startsNumber_eq_false_iff.mpr sign) gap⟩
  | single term inductionHypothesis =>
      obtain ⟨tokens, ⟨minuses, primary, rfl⟩, cuts⟩ := inductionHypothesis
      exact ⟨_, ⟨.last minuses primary, rfl⟩, cuts⟩
  | operation operator term before after others leftHypothesis rightHypothesis =>
      obtain ⟨left, ⟨minuses, primary, rfl⟩, leftCuts⟩ := leftHypothesis
      obtain ⟨right, ⟨phrase, rfl⟩, rightCuts⟩ := rightHypothesis
      exact ⟨_, ⟨.more minuses primary operator phrase, rfl⟩,
        leftCuts.operation operator before after rightCuts⟩

/-- A part opens and closes as many parentheses. -/
theorem Derives.balanced {part : Part} {text rest : List Char}
    (derives : Derives part text rest) (depth : Nat) :
    balanced depth text = balanced depth rest := by
  induction derives generalizing depth with
  | number longest =>
      exact balanced_append
        (fun c member => (longest.formed.isNumeralChar c member).ne_parenthesis) depth _
  | name longest =>
      exact balanced_append (fun c member =>
        (isWordChar_of_isNameChar (isNameChar_of_isName longest.formed c member)).ne_parenthesis)
        depth _
  | parentheses opened inside closed inductionHypothesis =>
      rw [Grammar.balanced, if_pos rfl, opened.balanced, inductionHypothesis, closed.balanced]
      simp [Grammar.balanced]
  | minus sign gap operand inductionHypothesis =>
      rw [Grammar.balanced, if_neg (by decide), if_neg (by decide), gap.balanced,
        inductionHypothesis]
  | single term inductionHypothesis => exact inductionHypothesis depth
  | operation operator term before after others leftHypothesis rightHypothesis =>
      rw [leftHypothesis, before.balanced, balanced_symbol, after.balanced, rightHypothesis]

theorem Gap.solid {text rest : List Char} (gap : Gap text rest)
    (solid : allBlank rest = false) : allBlank text = false := by
  obtain ⟨layout, -, rfl⟩ := gap
  rw [allBlank] at solid ⊢
  rw [List.all_append, solid, Bool.and_false]

theorem Derives.solid {part : Part} {text rest : List Char} (derives : Derives part text rest) :
    allBlank text = false := by
  induction derives with
  | number longest => exact allBlank_append_of_left longest.formed.solid _
  | @name name rest longest =>
      apply allBlank_append_of_left
      have named := longest.formed
      cases name with
      | nil => cases named
      | cons c text =>
          have letter := isNameChar_of_isName named c List.mem_cons_self
          simp [allBlank, (isWordChar_of_isNameChar letter).isBlank]
  | parentheses => simp [allBlank, isBlank, blankRanges]
  | minus => simp [allBlank, isBlank, blankRanges]
  | single term inductionHypothesis => exact inductionHypothesis
  | operation operator term before after others leftHypothesis => exact leftHypothesis

/-! ### What is read is derived -/

theorem scan_steps (place : Place) (depth : Nat) (text : List Char) :
    (place = .after ∧ Gap text [] ∧ scan place depth text = .ok []) ∨
    (∃ start, Gap text start ∧ token? place start = none ∧
      scan place depth text = .error ⟨place, depth, start⟩) ∨
    ∃ start token tail, Gap text start ∧ token? place start = some (token, tail) ∧
      scan place depth text = (scan token.next (token.depth depth) tail).map (token :: ·) := by
  have gap := gap_dropWhile text
  rw [scan]
  split
  next ended => exact .inl ⟨ended.1, ended.2 ▸ gap, rfl⟩
  next =>
    split
    next missing => exact .inr (.inl ⟨_, gap, missing, rfl⟩)
    next token tail found => exact .inr (.inr ⟨_, token, tail, gap, found, rfl⟩)

theorem scan_cases {place : Place} {depth : Nat} {text : List Char} {tokens : List Token}
    (scanned : scan place depth text = .ok tokens) :
    (tokens = [] ∧ place = .after ∧ Gap text []) ∨
      ∃ token others start rest, tokens = token :: others ∧ Gap text start ∧
        token? place start = some (token, rest) ∧
        scan token.next (token.depth depth) rest = .ok others := by
  rcases scan_steps place depth text with ⟨after, gap, done⟩ | ⟨start, -, -, done⟩ |
    ⟨start, token, rest, gap, found, done⟩
  · cases scanned.symm.trans done
    exact .inl ⟨rfl, after, gap⟩
  · cases scanned.symm.trans done
  · rw [scanned] at done
    cases further : scan token.next (token.depth depth) rest with
    | error mismatch =>
        rw [further] at done
        cases done
    | ok others =>
        rw [further] at done
        cases done
        exact .inr ⟨token, others, start, rest, rfl, gap, found, further⟩

theorem exists_of_scan_eq_cons {place : Place} {depth : Nat} {text : List Char} {token : Token}
    {others : List Token} (scanned : scan place depth text = .ok (token :: others)) :
    ∃ start rest, Gap text start ∧ token? place start = some (token, rest) ∧
      scan token.next (token.depth depth) rest = .ok others := by
  obtain ⟨empty, -⟩ | ⟨first, tail, start, rest, same, found⟩ := scan_cases scanned
  · cases empty
  · cases same
    exact ⟨start, rest, found⟩

theorem exists_begins_of_scan {place : Place} {depth : Nat} {text : List Char} {token : Token}
    {others : List Token} (before : place ≠ .after)
    (scanned : scan place depth text = .ok (token :: others)) :
    ∃ start rest, Gap text start ∧ token.Begins start rest ∧
      scan token.next (token.depth depth) rest = .ok others := by
  obtain ⟨start, rest, gap, found, further⟩ := exists_of_scan_eq_cons scanned
  rw [token?_of_ne_after before] at found
  exact ⟨start, rest, gap, operandToken?_eq_some_iff.mp found, further⟩

theorem gap_of_scan_eq_nil {place : Place} {depth : Nat} {text : List Char}
    (scanned : scan place depth text = .ok []) : Gap text [] := by
  obtain ⟨-, -, gap⟩ | ⟨first, tail, start, rest, same, -⟩ := scan_cases scanned
  · exact gap
  · cases same

/-- Where a text is cut into the tokens and others, the part stands at its start, and the
others come of the rest. -/
def Yields (tokens : List Token) (part : Part) : Prop :=
  ∀ place depth text others, place ≠ .after → scan place depth text = .ok (tokens ++ others) →
    ∃ start rest, Gap text start ∧ Derives part start rest ∧ scan .after depth rest = .ok others

theorem Yields.minus {tokens : List Token} (yields : Yields tokens .term) :
    Yields (.negation :: tokens) .term := by
  intro place depth text others before scanned
  obtain ⟨-, behind, gap, ⟨rfl, sign⟩, further⟩ := exists_begins_of_scan before scanned
  obtain ⟨operand, rest, inner, derives, scanned⟩ :=
    yields .operand depth behind others (by simp) further
  exact ⟨_, rest, gap, .minus sign inner derives, scanned⟩

theorem Yields.minuses {tokens : List Token} (yields : Yields tokens .term) (count : Nat) :
    Yields (List.replicate count .negation ++ tokens) .term := by
  induction count with
  | zero => exact yields
  | succ count inductionHypothesis => exact inductionHypothesis.minus

mutual

theorem Primary.yields (primary : Primary) : Yields primary.tokens .term := by
  intro place depth text others before scanned
  match primary with
  | .number digits =>
      obtain ⟨-, rest, gap, ⟨rfl, longest⟩, further⟩ := exists_begins_of_scan before scanned
      exact ⟨_, rest, gap, .number longest, further⟩
  | .name word =>
      obtain ⟨-, rest, gap, ⟨rfl, longest⟩, further⟩ := exists_begins_of_scan before scanned
      exact ⟨_, rest, gap, .name longest, further⟩
  | .parentheses content =>
      rw [Primary.tokens, List.cons_append, List.append_assoc] at scanned
      obtain ⟨-, opened, gap, rfl, further⟩ := exists_begins_of_scan before scanned
      obtain ⟨inner, behind, first, derives, scanned⟩ :=
        content.yields .start (depth + 1) opened _ (by simp) further
      obtain ⟨last, rest, second, found, further⟩ := exists_of_scan_eq_cons scanned
      obtain ⟨-, rfl⟩ | ⟨operator, same, -⟩ := operatorToken?_eq_some_iff.mp found
      · exact ⟨_, rest, gap, .parentheses first derives second, further⟩
      · cases same

theorem Phrase.yields (phrase : Phrase) : Yields phrase.tokens .expression := by
  intro place depth text others before scanned
  match phrase with
  | .last minuses primary =>
      obtain ⟨start, rest, gap, derives, further⟩ :=
        primary.yields.minuses minuses place depth text others before scanned
      exact ⟨start, rest, gap, .single derives, further⟩
  | .more minuses primary operator remaining =>
      rw [Phrase.tokens, List.append_assoc] at scanned
      obtain ⟨start, behind, gap, left, scanned⟩ :=
        primary.yields.minuses minuses place depth text _ before scanned
      obtain ⟨symbol, further, first, found, scanned⟩ := exists_of_scan_eq_cons scanned
      obtain ⟨same, -⟩ | ⟨later, same, rfl⟩ := operatorToken?_eq_some_iff.mp found
      · cases same
      · cases same
        obtain ⟨right, rest, second, derives, scanned⟩ :=
          remaining.yields .operand depth further others (by simp) scanned
        exact ⟨start, rest, gap, .operation operator left first second derives, scanned⟩

end

/-! ### The texts that are read -/

/-- A text that can be derived is neither blank nor out of balance. -/
theorem Calculation.filled {text : List Char} (calculation : Calculation text) :
    allBlank text = false ∧ balanced 0 text = true := by
  obtain ⟨start, rest, first, derives, last⟩ := calculation
  refine ⟨first.solid derives.solid, ?_⟩
  rw [first.balanced, derives.balanced, last.balanced]
  rfl

theorem tokenize_of_cuts {tokens : List Token} {text start rest : List Char} (first : Gap text start)
    (cuts : Cuts tokens start rest) (last : Gap rest []) : tokenize text = .ok tokens := by
  rw [tokenize, first.scan, cuts .start 0 (by simp), last.scan, scan_after_nil]
  simp [Except.map]

theorem Calculation.read {text : List Char} (calculation : Calculation text) :
    ∃ phrase, Phrase.read text = .ok phrase := by
  obtain ⟨solid, closed⟩ := calculation.filled
  obtain ⟨start, rest, first, derives, last⟩ := calculation
  obtain ⟨tokens, ⟨phrase, rfl⟩, cuts⟩ := derives.cuts
  refine ⟨phrase, ?_⟩
  rw [Phrase.read, solid, closed, tokenize_of_cuts first cuts last]
  simp [Phrase.ofTokens?_tokens]

theorem calculation_of_tokenize {text : List Char} {phrase : Phrase}
    (scanned : tokenize text = .ok phrase.tokens) : Calculation text := by
  rw [tokenize, ← List.append_nil phrase.tokens] at scanned
  obtain ⟨start, rest, gap, derives, ended⟩ := phrase.yields .start 0 text [] (by simp) scanned
  exact ⟨start, rest, gap, derives, gap_of_scan_eq_nil ended⟩

theorem calculation_of_read {text : List Char} {phrase : Phrase}
    (read : Phrase.read text = .ok phrase) : Calculation text :=
  calculation_of_tokenize (Phrase.tokenize_of_read read)

/-- The texts that are read as a phrase are those that can be derived. -/
theorem exists_read_iff {text : List Char} :
    (∃ phrase, Phrase.read text = .ok phrase) ↔ Calculation text :=
  ⟨fun ⟨_, read⟩ => calculation_of_read read, Calculation.read⟩

/-- The first minus is a prefix, the second belongs to the number, the third subtracts. -/
example : Calculation "--.5-x".toList := by
  have read : Phrase.read "--.5-x".toList =
      .ok (.more 1 (.number "-.5".toList) .subtract (.last 0 (.name "x".toList))) := by cbv
  exact exists_read_iff.mp ⟨_, read⟩

/-! ### Tokens in balance -/

/-- What is being read fits the place that the scanner has reached. -/
def Pending.Fits : Pending → Place → Prop
  | .minuses _, place => place ≠ .after
  | .operand _ _, place => place = .after

theorem Token.Begins.balanced {token : Token} {text rest : List Char}
    (begins : token.Begins text rest) (depth : Nat) :
    balanced depth text = balanced (token.depth depth) rest := by
  cases token with
  | number digits =>
      obtain ⟨rfl, longest⟩ := begins
      exact (Derives.number longest).balanced depth
  | name word =>
      obtain ⟨rfl, longest⟩ := begins
      exact (Derives.name longest).balanced depth
  | negation =>
      obtain ⟨rfl, -⟩ := begins
      rfl
  | opening =>
      cases begins
      rfl
  | closing | infixed => cases begins

/-- The tokens of a balanced text are never refused. -/
theorem exists_assemble? {tokens : List Token} {place : Place} {depth : Nat} {text : List Char}
    (scanned : scan place depth text = .ok tokens) (closed : balanced depth text = true)
    {opened : List Opened} {pending : Pending} (level : opened.length = depth)
    (fits : pending.Fits place) (links : List Link) :
    ∃ phrase, Phrase.assemble? opened links pending tokens = some phrase := by
  -- The parentheses that assembly keeps open are always as many as the text has left to close,
  -- so a closing one never comes too early and the end never too soon.
  induction tokens generalizing place depth text opened pending links with
  | nil =>
      obtain ⟨-, rfl, gap⟩ | ⟨token, others, start, rest, same, -⟩ := scan_cases scanned
      · rw [gap.balanced] at closed
        cases pending with
        | minuses count => exact absurd rfl fits
        | operand minuses primary =>
            have outside : opened = [] := by
              rw [balanced, decide_eq_true_eq, ← level] at closed
              exact List.eq_nil_of_length_eq_zero closed
            rw [outside, Phrase.assemble?]
            exact ⟨_, rfl⟩
      · cases same
  | cons token tokens inductionHypothesis =>
      cases pending with
      | minuses count =>
          obtain ⟨start, rest, gap, begins, further⟩ := exists_begins_of_scan fits scanned
          rw [gap.balanced, begins.balanced] at closed
          cases token with
          | number | name =>
              refine inductionHypothesis further closed level ?_ links
              rfl
          | negation =>
              refine inductionHypothesis further closed level ?_ links
              simp [Pending.Fits, Token.next]
          | opening =>
              refine inductionHypothesis further closed (congrArg (· + 1) level) ?_ []
              simp [Pending.Fits, Token.next]
          | closing | infixed => cases begins
      | operand minuses primary =>
          cases fits
          obtain ⟨start, rest, gap, found, further⟩ := exists_of_scan_eq_cons scanned
          rw [gap.balanced] at closed
          obtain ⟨rfl, rfl⟩ | ⟨operator, rfl, rfl⟩ := operatorToken?_eq_some_iff.mp found
          · cases opened with
            | nil => simp [balanced, ← level] at closed
            | cons outer opened =>
                rw [balanced, if_neg (by decide), if_pos rfl, Bool.and_eq_true] at closed
                refine inductionHypothesis further closed.2 ?_ ?_ outer.links
                · rw [← level]
                  rfl
                · rfl
          · rw [balanced_symbol] at closed
            refine inductionHypothesis further closed level ?_ _
            simp [Pending.Fits, Token.next]

theorem exists_ofTokens? {text : List Char} {tokens : List Token}
    (scanned : tokenize text = .ok tokens) (closed : balanced 0 text = true) :
    ∃ phrase, Phrase.ofTokens? tokens = some phrase :=
  exists_assemble? scanned closed rfl (by simp [Pending.Fits]) []

end Worksheet.Grammar
