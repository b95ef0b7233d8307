import Mathlib
import Worksheet.Expr.Read
import Worksheet.Number.Write
import Worksheet.Proofs.Decimal.Lexeme

/-!
# Texts that are cut into known tokens

A text spells tokens if the scanner cuts it into them wherever an operand may begin,
and stops at its end whatever follows.  Numbers, names, parentheses and operators
between spaces are put together to longer spellings, and the text of a whole phrase is
read as the phrase.
-/

namespace Worksheet.Grammar

open Decimal Text

/-- The text is a name, from its first character to its last. -/
def isName : List Char → Bool
  | [] => false
  | c :: text => isNameStart c && text.all isNameChar

/-! ### Single steps of the scanner -/

theorem scan_layout {c : Char} (layout : isLayout c = true) (place : Place) (depth : Nat)
    (text : List Char) : scan place depth (c :: text) = scan place depth text := by
  rw [scan, scan, List.dropWhile_cons_of_pos layout]

theorem solid_of_token? {place : Place} {text rest : List Char} {token : Token}
    (found : token? place text = some (token, rest)) :
    ∀ c ∈ text.head?, isLayout c = false := by
  intro c first
  obtain ⟨tail, rfl⟩ := List.head?_eq_some_iff.mp first
  cases layout : isLayout c with
  | false => rfl
  | true =>
      simp only [isLayout, Bool.or_eq_true, decide_eq_true_eq] at layout
      rcases layout with ((rfl | rfl) | rfl) | rfl <;> cases place <;> cases found

theorem scan_of_token? {place : Place} {text rest : List Char} {token : Token}
    (found : token? place text = some (token, rest)) (depth : Nat) :
    scan place depth text =
      (scan token.next (token.depth depth) rest).map (token :: ·) := by
  have filled : text ≠ [] := by
    intro empty
    rw [empty] at found
    cases place <;> cases found
  rw [scan, dropWhile_of_head (solid_of_token? found), if_neg fun ended => filled ended.2]
  split
  next missing => simp [found] at missing
  next other tail same =>
    obtain ⟨rfl, rfl⟩ := Prod.mk.inj (Option.some.inj (found.symm.trans same))
    rfl

theorem scan_after_nil (depth : Nat) : scan .after depth [] = .ok [] := by
  simp [scan]

theorem token?_of_ne_after {place : Place} (before : place ≠ .after) (text : List Char) :
    token? place text = operandToken? text := by
  cases place with
  | start => rfl
  | operand => rfl
  | after => exact absurd rfl before

theorem startsNumber_eq_false_iff {text : List Char} :
    startsNumber text = false ↔ ∀ c ∈ text.head?, c.isDigit = false ∧ c ≠ '.' := by
  cases text with
  | nil => simp [startsNumber]
  | cons c text => simp [startsNumber]

/-! ### Runs of the scanner -/

/-- Nothing but layout stands before the rest. -/
def Gap (text rest : List Char) : Prop :=
  ∃ layout : List Char, (∀ c ∈ layout, isLayout c = true) ∧ text = layout ++ rest

theorem gap_refl (text : List Char) : Gap text text :=
  ⟨[], by simp, rfl⟩

theorem gap_space (text : List Char) : Gap (' ' :: text) text :=
  ⟨[' '], by simp [isLayout], rfl⟩

theorem gap_dropWhile (text : List Char) : Gap text (text.dropWhile isLayout) :=
  ⟨text.takeWhile isLayout, fun _ => List.mem_takeWhile_imp,
    List.takeWhile_append_dropWhile.symm⟩

theorem Gap.trans {first second third : List Char} (gap : Gap first second)
    (further : Gap second third) : Gap first third := by
  obtain ⟨layout, all, rfl⟩ := gap
  obtain ⟨more, others, rfl⟩ := further
  refine ⟨layout ++ more, fun c member => ?_, by rw [List.append_assoc]⟩
  exact (List.mem_append.mp member).elim (all c) (others c)

theorem Gap.scan {text rest : List Char} (gap : Gap text rest) (place : Place) (depth : Nat) :
    scan place depth text = scan place depth rest := by
  obtain ⟨layout, all, rfl⟩ := gap
  induction layout with
  | nil => rfl
  | cons c layout inductionHypothesis =>
      obtain ⟨first, others⟩ := List.forall_mem_cons.mp all
      rw [List.cons_append, scan_layout first, inductionHypothesis others]

/-- Wherever an operand may begin, the text is cut into the tokens as far as the rest,
and an operator may come next. -/
def Cuts (tokens : List Token) (text rest : List Char) : Prop :=
  ∀ (place : Place) (depth : Nat), place ≠ .after →
    scan place depth text = (scan .after depth rest).map (tokens ++ ·)

theorem cuts_of_operandToken? {text rest : List Char} {token : Token}
    (found : operandToken? text = some (token, rest)) (next : token.next = .after)
    (depth : ∀ depth, token.depth depth = depth) : Cuts [token] text rest := by
  intro place opened before
  rw [scan_of_token? ((token?_of_ne_after before _).trans found), next, depth]
  rfl

theorem Cuts.minus {tokens : List Token} {text operand rest : List Char}
    (cuts : Cuts tokens operand rest) (sign : startsNumber text = false)
    (gap : Gap text operand) : Cuts (.negation :: tokens) ('-' :: text) rest := by
  intro place depth before
  have found : operandToken? ('-' :: text) = some (.negation, text) := by
    simp [operandToken?, sign]
  have level : Token.negation.depth depth = depth := rfl
  rw [scan_of_token? ((token?_of_ne_after before _).trans found), gap.scan, Token.next,
    level, cuts .operand depth (by simp)]
  cases scan .after depth rest <;> rfl

theorem Cuts.parentheses {tokens : List Token} {text inner behind rest : List Char}
    (cuts : Cuts tokens inner behind) (opened : Gap text inner)
    (closed : Gap behind (')' :: rest)) :
    Cuts (.opening :: (tokens ++ [.closing])) ('(' :: text) rest := by
  intro place depth before
  have opening : operandToken? ('(' :: text) = some (.opening, text) := rfl
  have closing : token? .after (')' :: rest) = some (.closing, rest) := rfl
  rw [scan_of_token? ((token?_of_ne_after before _).trans opening), opened.scan, Token.next,
    Token.depth, cuts .start (depth + 1) (by simp), closed.scan, scan_of_token? closing, Token.next,
    Token.depth, Nat.add_sub_cancel]
  cases scan .after depth rest with
  | error mismatch => rfl
  | ok others => simp [Except.map]

theorem operatorToken?_symbol (operator : Operator) (rest : List Char) :
    operatorToken? (operator.symbol :: rest) = some (.infixed operator, rest) := by
  cases operator <;> rfl

theorem Cuts.operation {leftTokens rightTokens : List Token}
    {text behind further right rest : List Char} (left : Cuts leftTokens text behind)
    (operator : Operator) (before : Gap behind (operator.symbol :: further))
    (after : Gap further right) (cuts : Cuts rightTokens right rest) :
    Cuts (leftTokens ++ .infixed operator :: rightTokens) text rest := by
  intro place depth operand
  have token : token? .after (operator.symbol :: further) =
      some (.infixed operator, further) := operatorToken?_symbol operator further
  have level : (Token.infixed operator).depth depth = depth := rfl
  rw [left place depth operand, before.scan, scan_of_token? token, Token.next, level,
    after.scan, cuts .operand depth (by simp)]
  cases scan .after depth rest with
  | error mismatch => rfl
  | ok others => simp [Except.map]

/-! ### The characters of names and numbers -/

/-- The range from the minus to the last letter holds no blank and no parenthesis. -/
def IsWordChar (c : Char) : Prop :=
  45 ≤ c.toNat ∧ c.toNat ≤ 122

theorem IsWordChar.isBlank {c : Char} (word : IsWordChar c) : isBlank c = false := by
  obtain ⟨low, high⟩ := word
  simp only [Text.isBlank, blankRanges, List.any_cons, List.any_nil, Bool.or_false,
    Bool.or_eq_false_iff, Bool.and_eq_false_iff, decide_eq_false_iff_not]
  omega

theorem IsWordChar.ne_parenthesis {c : Char} (word : IsWordChar c) : c ≠ '(' ∧ c ≠ ')' := by
  constructor
  · rintro rfl
    exact absurd word.1 (by decide)
  · rintro rfl
    exact absurd word.1 (by decide)

theorem isWordChar_of_isNameChar {c : Char} (named : isNameChar c = true) : IsWordChar c := by
  simp only [isNameChar, Char.isAlphanum, Char.isAlpha, Char.isUpper, Char.isLower, Char.isDigit,
    Bool.or_eq_true, Bool.and_eq_true, decide_eq_true_eq, ge_iff_le, UInt32.le_iff_toNat_le]
    at named
  rcases named with ((⟨low, high⟩ | ⟨low, high⟩) | ⟨low, high⟩) | rfl
  · change 65 ≤ c.toNat at low
    change c.toNat ≤ 90 at high
    exact ⟨by omega, by omega⟩
  · change 97 ≤ c.toNat at low
    exact ⟨by omega, high⟩
  · change 48 ≤ c.toNat at low
    change c.toNat ≤ 57 at high
    exact ⟨by omega, by omega⟩
  · constructor <;> decide

theorem isNameChar_of_isNameStart {c : Char} (start : isNameStart c = true) :
    isNameChar c = true := by
  simp only [isNameStart, isNameChar, Char.isAlphanum, Bool.or_eq_true] at start ⊢
  exact start.imp_left .inl

theorem isWordChar_of_isDigit {c : Char} (digit : c.isDigit = true) : IsWordChar c := by
  apply isWordChar_of_isNameChar
  simp [isNameChar, Char.isAlphanum, digit]

theorem cases_of_mem_chars {lexeme : Lexeme} (formed : lexeme.Formed) {c : Char}
    (member : c ∈ lexeme.chars) : c.isDigit = true ∨ c = '.' ∨ c = 'e' ∨ c = '-' := by
  simp only [Lexeme.chars, List.mem_append] at member
  rcases member with (whole | fraction) | exponent
  · exact .inl (formed.isDigit_whole c whole)
  · have digits := formed.isDigit_fraction c
    cases made : lexeme.fraction with
    | none => simp [made, Lexeme.fractionChars] at fraction
    | some run =>
        simp only [Lexeme.fractionDigits, made, Option.getD_some] at digits
        simp only [made, Lexeme.fractionChars, List.mem_cons] at fraction
        exact (fraction.symm.imp_left digits).imp_right .inl
  · cases made : lexeme.exponent with
    | none => simp [made, Lexeme.exponentChars] at exponent
    | some power =>
        simp only [made, Lexeme.exponentChars, Lexeme.powerChars, List.mem_cons] at exponent
        rcases exponent with mark | inside
        · exact .inr (.inr (.inl mark))
        · split at inside
          next =>
            rcases List.mem_cons.mp inside with minus | inside
            · exact .inr (.inr (.inr minus))
            · exact .inl (isDigit_toDigits inside)
          next => exact .inl (isDigit_toDigits inside)

theorem cases_of_mem_withSign {negative : Bool} {lexeme : Lexeme} (formed : lexeme.Formed)
    {c : Char} (member : c ∈ Number.Written.withSign negative lexeme.chars) :
    c.isDigit = true ∨ c = '.' ∨ c = 'e' ∨ c = '-' := by
  cases negative with
  | false => exact cases_of_mem_chars formed member
  | true =>
      rcases List.mem_cons.mp member with minus | inside
      · exact .inr (.inr (.inr minus))
      · exact cases_of_mem_chars formed inside

theorem isWordChar_of_mem_withSign {negative : Bool} {lexeme : Lexeme} (formed : lexeme.Formed)
    {c : Char} (member : c ∈ Number.Written.withSign negative lexeme.chars) : IsWordChar c := by
  rcases cases_of_mem_withSign formed member with digit | rfl | rfl | rfl
  · exact isWordChar_of_isDigit digit
  all_goals constructor <;> decide

/-! ### Spellings -/

/-- The text is cut into the tokens, wherever an operand may begin and whatever follows
that does not go on with its last token. -/
structure Spells (text : List Char) (tokens : List Token) : Prop where
  scan : ∀ (place : Place) (depth : Nat) (rest : List Char), place ≠ .after → Stops rest →
    Grammar.scan place depth (text ++ rest) = (Grammar.scan .after depth rest).map (tokens ++ ·)
  balanced : ∀ (depth : Nat) (rest : List Char),
    Grammar.balanced depth (text ++ rest) = Grammar.balanced depth rest
  solid : allBlank text = false

theorem Spells.cuts {text rest : List Char} {tokens : List Token} (spells : Spells text tokens)
    (stops : Stops rest) : Cuts tokens (text ++ rest) rest :=
  fun place depth before => spells.scan place depth rest before stops

theorem balanced_append {text : List Char} (flat : ∀ c ∈ text, c ≠ '(' ∧ c ≠ ')') (depth : Nat)
    (rest : List Char) : balanced depth (text ++ rest) = balanced depth rest := by
  induction text with
  | nil => rfl
  | cons c text inductionHypothesis =>
      obtain ⟨⟨notOpening, notClosing⟩, flat⟩ := List.forall_mem_cons.mp flat
      rw [List.cons_append, balanced, if_neg notOpening, if_neg notClosing,
        inductionHypothesis flat]

theorem Gap.balanced {text rest : List Char} (gap : Gap text rest) (depth : Nat) :
    balanced depth text = balanced depth rest := by
  obtain ⟨layout, all, rfl⟩ := gap
  refine balanced_append (fun c member => ?_) depth rest
  constructor <;> rintro rfl <;> cases all _ member

theorem balanced_symbol (operator : Operator) (depth : Nat) (rest : List Char) :
    balanced depth (operator.symbol :: rest) = balanced depth rest := by
  cases operator <;> rfl

theorem spells_word {text : List Char} {token : Token} (filled : text ≠ [])
    (words : ∀ c ∈ text, IsWordChar c)
    (read : ∀ rest, Stops rest → operandToken? (text ++ rest) = some (token, rest))
    (next : token.next = .after) (depth : ∀ depth, token.depth depth = depth) :
    Spells text [token] := by
  obtain ⟨first, others, rfl⟩ := List.exists_cons_of_ne_nil filled
  have word := words first List.mem_cons_self
  constructor
  · intro place opened rest before stops
    exact cuts_of_operandToken? (read rest stops) next depth place opened before
  · intro opened rest
    exact balanced_append (fun c member => (words c member).ne_parenthesis) opened rest
  · simp [allBlank, word.isBlank]

theorem isNameChar_of_stops {rest : List Char} (stops : Stops rest) :
    ∀ c ∈ rest.head?, isNameChar c = false := by
  intro c member
  rcases stops c member with rfl | rfl <;> decide

theorem startsNumber_of_isNameStart {c : Char} (start : isNameStart c = true)
    (text : List Char) : startsNumber (c :: text) = false := by
  have letter : 65 ≤ c.toNat := by
    simp only [isNameStart, Char.isAlpha, Char.isUpper, Char.isLower, Bool.or_eq_true,
      Bool.and_eq_true, decide_eq_true_eq, ge_iff_le, UInt32.le_iff_toNat_le] at start
    rcases start with (⟨low, -⟩ | ⟨low, -⟩) | rfl
    · exact low
    · change 97 ≤ c.toNat at low
      omega
    · decide
  rw [startsNumber, Bool.or_eq_false_iff]
  constructor
  · simp only [Char.isDigit, Bool.and_eq_false_iff, decide_eq_false_iff_not, ge_iff_le,
      UInt32.le_iff_toNat_le]
    right
    change ¬c.toNat ≤ 57
    omega
  · apply decide_eq_false
    rintro rfl
    exact absurd letter (by decide)

theorem isNameChar_of_isName {name : List Char} (named : isName name = true) :
    ∀ c ∈ name, isNameChar c = true := by
  cases name with
  | nil => cases named
  | cons c text =>
      rw [isName, Bool.and_eq_true, List.all_eq_true] at named
      exact List.forall_mem_cons.mpr ⟨isNameChar_of_isNameStart named.1, named.2⟩

theorem operandToken?_name {name rest : List Char} (named : isName name = true)
    (clear : ∀ c ∈ rest.head?, isNameChar c = false) :
    operandToken? (name ++ rest) = some (.name name, rest) := by
  cases name with
  | nil => cases named
  | cons c text =>
      rw [isName, Bool.and_eq_true, List.all_eq_true] at named
      obtain ⟨start, all⟩ := named
      have notOpening : c ≠ '(' := by
        rintro rfl
        cases start
      have notMinus : c ≠ '-' := by
        rintro rfl
        cases start
      have notNumber : startsNumber (c :: (text ++ rest)) = false :=
        startsNumber_of_isNameStart start _
      rw [List.cons_append, operandToken?, if_neg notOpening, if_neg notMinus, notNumber,
        if_neg Bool.false_ne_true, if_pos start, takeWhile_run all clear,
        dropWhile_run all clear]

theorem spells_name {name : List Char} (named : isName name = true) :
    Spells name [.name name] := by
  apply spells_word
  · rintro rfl
    cases named
  · intro c member
    exact isWordChar_of_isNameChar (isNameChar_of_isName named c member)
  · intro rest stops
    exact operandToken?_name named (isNameChar_of_stops stops)
  · rfl
  · intro depth
    rfl

theorem unsigned?_chars {lexeme : Lexeme} (formed : lexeme.Formed) {rest : List Char}
    (stops : Stops rest) : unsigned? (lexeme.chars ++ rest) = some (lexeme.chars, rest) := by
  rw [unsigned?, Lexeme.read?_chars formed stops, Option.map_some]
  simp

theorem operandToken?_of_startsNumber {text : List Char} (starts : startsNumber text = true) :
    operandToken? text =
      (unsigned? text).map fun (digits, rest) => (.number digits, rest) := by
  cases text with
  | nil => cases starts
  | cons c text =>
      have notOpening : c ≠ '(' := by
        rintro rfl
        cases starts
      have notMinus : c ≠ '-' := by
        rintro rfl
        cases starts
      rw [operandToken?, if_neg notOpening, if_neg notMinus, if_pos starts]

theorem operandToken?_plain {text digits rest : List Char} (starts : startsNumber text = true)
    (taken : unsigned? text = some (digits, rest)) :
    operandToken? text = some (.number digits, rest) := by
  rw [operandToken?_of_startsNumber starts, taken, Option.map_some]

theorem operandToken?_negative {text digits rest : List Char}
    (starts : startsNumber text = true) (taken : unsigned? text = some (digits, rest)) :
    operandToken? ('-' :: text) = some (.number ('-' :: digits), rest) := by
  rw [operandToken?, if_neg (by decide), if_pos rfl, if_pos starts, taken]
  rfl

theorem spells_literal {lexeme : Lexeme} (formed : lexeme.Formed) (negative : Bool) :
    Spells (Number.Written.withSign negative lexeme.chars)
      [.number (Number.Written.withSign negative lexeme.chars)] := by
  obtain ⟨c, others, made⟩ : ∃ c others, lexeme.chars = c :: others := by
    apply List.exists_cons_of_ne_nil
    simp [Lexeme.chars, formed.whole_ne_nil]
  have digit : c.isDigit = true := formed.isDigit_head c (by simp [made])
  apply spells_word
  · cases negative with
    | true => exact List.cons_ne_nil _ _
    | false => simp [Number.Written.withSign, made]
  · intro d member
    exact isWordChar_of_mem_withSign formed member
  · intro rest stops
    have taken := unsigned?_chars formed stops
    have starts : startsNumber (lexeme.chars ++ rest) = true := by
      simp [made, startsNumber, digit]
    cases negative with
    | true => exact operandToken?_negative starts taken
    | false => exact operandToken?_plain starts taken
  · rfl
  · intro depth
    rfl

theorem spells_parentheses {text : List Char} {tokens : List Token}
    (spells : Spells text tokens) :
    Spells ('(' :: (text ++ [')'])) (.opening :: (tokens ++ [.closing])) := by
  constructor
  · intro place depth rest before stops
    have inside := spells.cuts (stops_cons rest (.inr rfl))
    rw [List.cons_append, List.append_assoc]
    exact inside.parentheses (gap_refl _) (gap_refl _) place depth before
  · intro depth rest
    rw [List.cons_append, List.append_assoc, balanced, if_pos rfl, spells.balanced]
    simp [balanced]
  · simp [allBlank, isBlank, blankRanges]

theorem allBlank_append_of_left {left : List Char} (solid : allBlank left = false)
    (right : List Char) : allBlank (left ++ right) = false := by
  rw [allBlank] at solid ⊢
  rw [List.all_append, solid, Bool.false_and]

theorem spells_binary {left right : List Char} {leftTokens rightTokens : List Token}
    (operator : Operator) (leftSpells : Spells left leftTokens)
    (rightSpells : Spells right rightTokens) :
    Spells (left ++ ' ' :: operator.symbol :: ' ' :: right)
      (leftTokens ++ .infixed operator :: rightTokens) := by
  constructor
  · intro place depth rest before stops
    have first := leftSpells.cuts
      (stops_cons (operator.symbol :: ' ' :: (right ++ rest)) (.inl rfl))
    rw [List.append_assoc]
    exact first.operation operator (gap_space _) (gap_space _) (rightSpells.cuts stops) place depth
      before
  · intro depth rest
    rw [List.append_assoc, leftSpells.balanced, List.cons_append, (gap_space _).balanced,
      List.cons_append, balanced_symbol, List.cons_append, (gap_space _).balanced,
      rightSpells.balanced]
  · exact allBlank_append_of_left leftSpells.solid _

/-- The text of a phrase is read as the phrase. -/
theorem Phrase.read_of_spells {text : List Char} {phrase : Phrase}
    (spells : Spells text phrase.tokens) : Phrase.read text = .ok phrase := by
  have whole := spells.scan .start 0 [] (by simp) stops_nil
  have closed := spells.balanced 0 []
  rw [List.append_nil] at whole closed
  rw [scan_after_nil] at whole
  rw [Phrase.read, spells.solid, closed, tokenize, whole]
  simp [Except.map, balanced, Phrase.ofTokens?_tokens]

theorem Phrase.tokenize_of_read {text : List Char} {phrase : Phrase}
    (read : Phrase.read text = .ok phrase) : tokenize text = .ok phrase.tokens := by
  unfold Phrase.read at read
  split at read
  next => cases read
  next =>
    split at read
    next => cases read
    next =>
      split at read
      next => cases read
      next tokens scanned =>
        split at read
        next found =>
          cases read
          rw [← ofTokens?_eq_some_iff.mp found, scanned]
        next => cases read

end Worksheet.Grammar
