import Worksheet.Grammar.Peg
import Worksheet.Proofs.Grammar.Passing

/-!
# Runs of the grammar

A form has one outcome at a place.  In an atomic rule, where no layout is skipped, a form is
told by the function that takes it off the front of a text.  That function is the scanner's
for numbers, names and negations: the rule finds the token that the scanner finds, and
fails where the scanner finds another one or none.
-/

namespace Worksheet.Grammar

open Decimal Text

/-- A form has one outcome at a place. -/
theorem Runs.unique {whole : List Char} {atomic : Bool} {peg : Peg} {text : List Char}
    {outcome other : Outcome} (first : Runs whole atomic peg text outcome)
    (second : Runs whole atomic peg text other) : outcome = other := by
  induction first generalizing other with
  | nothing =>
      cases second
      rfl
  | one accepted =>
      cases second with
      | one => rfl
      | notOne refused => simp [refused _ rfl] at accepted
  | notOne refused =>
      cases second with
      | one accepted => simp [refused _ rfl] at accepted
      | notOne => rfl
  | rule _ inductionHypothesis =>
      cases second with
      | rule found =>
          cases inductionHypothesis found
          rfl
      | notRule missing => cases inductionHypothesis missing
  | notRule _ inductionHypothesis =>
      cases second with
      | rule found => cases inductionHypothesis found
      | notRule => rfl
  | sequence _ _ firstHypothesis secondHypothesis =>
      cases second with
      | sequence found next =>
          cases firstHypothesis found
          cases secondHypothesis next
          rfl
      | notFirst missing => cases firstHypothesis missing
      | notSecond found missing =>
          cases firstHypothesis found
          cases secondHypothesis missing
  | notFirst _ inductionHypothesis =>
      cases second with
      | sequence found => cases inductionHypothesis found
      | notFirst | notSecond => rfl
  | notSecond _ _ firstHypothesis secondHypothesis =>
      cases second with
      | sequence found next =>
          cases firstHypothesis found
          cases secondHypothesis next
      | notFirst | notSecond => rfl
  | chosen _ inductionHypothesis =>
      cases second with
      | chosen found => exact inductionHypothesis found
      | otherwise missing => cases inductionHypothesis missing
  | otherwise _ _ firstHypothesis secondHypothesis =>
      cases second with
      | chosen found => cases firstHypothesis found
      | otherwise _ found => exact secondHypothesis found
  | many _ _ firstHypothesis secondHypothesis =>
      cases second with
      | many found more =>
          cases firstHypothesis found
          cases secondHypothesis more
          rfl
      | notMany missing => cases firstHypothesis missing
  | notMany _ inductionHypothesis =>
      cases second with
      | many found => cases inductionHypothesis found
      | notMany => rfl
  | further _ _ firstHypothesis secondHypothesis =>
      cases second with
      | further found more =>
          cases firstHypothesis found
          cases secondHypothesis more
          rfl
      | notFurther missing => cases firstHypothesis missing
  | notFurther _ inductionHypothesis =>
      cases second with
      | further found => cases inductionHypothesis found
      | notFurther => rfl
  | absent _ inductionHypothesis =>
      cases second with
      | absent => rfl
      | notAbsent found => cases inductionHypothesis found
  | notAbsent _ inductionHypothesis =>
      cases second with
      | absent missing => cases inductionHypothesis missing
      | notAbsent => rfl
  | start =>
      cases second with
      | start => rfl
      | notStart apart => exact absurd rfl apart
  | notStart apart =>
      cases second with
      | start => exact absurd rfl apart
      | notStart => rfl
  | finish =>
      cases second with
      | finish => rfl
      | notFinish filled => exact absurd rfl filled
  | notFinish filled =>
      cases second with
      | finish => exact absurd rfl filled
      | notFinish => rfl


/-! ### Layout -/

@[simp]
theorem skip_true (text : List Char) : skip true text = text := rfl

theorem skip_false (text : List Char) : skip false text = text.dropWhile isLayout := rfl

theorem Gap.skip_eq {text rest : List Char} (gap : Gap text rest) :
    skip false text = skip false rest := by
  obtain ⟨layout, all, rfl⟩ := gap
  rw [skip_false, List.dropWhile_append_of_pos all, skip_false]

theorem gap_skip (atomic : Bool) (text : List Char) : Gap text (skip atomic text) := by
  cases atomic with
  | false => exact gap_dropWhile text
  | true => exact gap_refl text

@[simp]
theorem skip_skip (atomic : Bool) (text : List Char) :
    skip atomic (skip atomic text) = skip atomic text := by
  cases atomic with
  | false => exact (gap_skip false text).skip_eq.symm
  | true => rfl

variable {whole : List Char} {atomic : Bool} {part : Peg}

/-- Repetitions behind a place are repetitions from where the next part begins. -/
theorem Runs.many_of_further {before rest : List Char} {pairs : List Pair}
    (run : Runs whole atomic (.further part) before (some (pairs, rest))) :
    ∃ other, Runs whole atomic (.many part) (skip atomic before) (some (pairs, other)) ∧
      Gap rest other := by
  cases run with
  | further found more => exact ⟨rest, .many found more, gap_refl rest⟩
  | notFurther missing => exact ⟨_, .notMany missing, gap_skip atomic before⟩

theorem Runs.further_of_many {before text rest : List Char} {pairs : List Pair}
    (run : Runs whole atomic (.many part) text (some (pairs, rest)))
    (begins : skip atomic before = text) :
    ∃ other, Runs whole atomic (.further part) before (some (pairs, other)) ∧
      Gap other rest := by
  cases begins
  cases run with
  | many found more => exact ⟨rest, .further found more, gap_refl rest⟩
  | notMany missing => exact ⟨before, .notFurther missing, gap_skip atomic before⟩

/-! ### Rules that are not atomic -/

theorem Runs.silent {rule : Rule} {text : List Char} {outcome : Outcome}
    (mode : rule.mode = .silent) (run : Runs whole atomic rule.body text outcome) :
    Runs whole atomic (.rule rule) text outcome := by
  have inside : (atomic || decide (rule.mode = .atomic)) = atomic := by simp [mode]
  cases outcome with
  | none => exact .notRule (inside.symm ▸ run)
  | some found =>
      obtain ⟨pairs, rest⟩ := found
      have same : rule.pairs (consumed text rest) pairs = pairs := by rw [Rule.pairs, mode]
      rw [← same]
      exact .rule (inside.symm ▸ run)

theorem Runs.normal {rule : Rule} {text rest : List Char} {pairs : List Pair}
    (mode : rule.mode = .normal) (run : Runs whole atomic rule.body text (some (pairs, rest))) :
    Runs whole atomic (.rule rule) text (some ([⟨rule, consumed text rest, pairs⟩], rest)) := by
  have inside : (atomic || decide (rule.mode = .atomic)) = atomic := by simp [mode]
  have made : rule.pairs (consumed text rest) pairs = [⟨rule, consumed text rest, pairs⟩] := by
    rw [Rule.pairs, mode]
  rw [← made]
  exact .rule (inside.symm ▸ run)

/-! ### Atomic forms -/

/-- Nothing is found but the rest of the text, if there is one. -/
def bare (rest? : Option (List Char)) : Outcome :=
  rest?.map fun rest => ([], rest)

/-- In an atomic rule, the form takes what the function takes off the front. -/
def Takes (part : Peg) (take? : List Char → Option (List Char)) : Prop :=
  ∀ whole text, Runs whole true part text (bare (take? text))

def takeOne? (accepts : Char → Bool) : List Char → Option (List Char)
  | [] => none
  | c :: rest => if accepts c then some rest else none

namespace Takes

variable {first second : Peg} {take? takeFirst? takeSecond? : List Char → Option (List Char)}

theorem one (accepts : Char → Bool) : Takes (.one accepts) (takeOne? accepts) := by
  intro whole text
  cases text with
  | nil => exact .notOne (by simp)
  | cons c rest =>
      rw [takeOne?]
      split
      next accepted => exact .one accepted
      next refused => exact .notOne (by simpa using refused)

theorem sequence (takesFirst : Takes first takeFirst?) (takesSecond : Takes second takeSecond?) :
    Takes (first >> second) fun text => (takeFirst? text).bind takeSecond? := by
  intro whole text
  have run := takesFirst whole text
  change Runs whole true (.sequence first second) text (bare ((takeFirst? text).bind takeSecond?))
  cases found : takeFirst? text with
  | none =>
      rw [found] at run
      exact .notFirst run
  | some middle =>
      rw [found] at run
      have next := takesSecond whole middle
      rw [Option.bind_some]
      cases more : takeSecond? middle with
      | none =>
          rw [more] at next
          exact .notSecond run next
      | some rest =>
          rw [more] at next
          exact .sequence run next

theorem choice (takesFirst : Takes first takeFirst?) (takesSecond : Takes second takeSecond?) :
    Takes (first <|> second) fun text => (takeFirst? text).or (takeSecond? text) := by
  intro whole text
  have run := takesFirst whole text
  change Runs whole true (.choice first second) text
    (bare ((takeFirst? text).or (takeSecond? text)))
  cases found : takeFirst? text with
  | none =>
      rw [found] at run
      exact .otherwise run (takesSecond whole text)
  | some rest =>
      rw [found] at run
      exact .chosen run

theorem optional (takes : Takes part take?) :
    Takes (.optional part) fun text => some ((take? text).getD text) := by
  intro whole text
  have run := takes whole text
  change Runs whole true (.choice part .nothing) text (bare (some ((take? text).getD text)))
  cases found : take? text with
  | none =>
      rw [found] at run
      exact .otherwise run .nothing
  | some rest =>
      rw [found] at run
      exact .chosen run

theorem absent (takes : Takes part take?) :
    Takes (.absent part) fun text => if (take? text).isSome then none else some text := by
  intro whole text
  have run := takes whole text
  change Runs whole true (.absent part) text
    (bare (if (take? text).isSome then none else some text))
  cases found : take? text with
  | none =>
      rw [found] at run
      exact .absent run
  | some rest =>
      rw [found] at run
      exact .notAbsent run

/-- A repetition takes all the characters at the front that satisfy the test. -/
theorem many {accepts : Char → Bool} (takes : Takes part (takeOne? accepts)) :
    Takes (.many part) fun text => some (text.dropWhile accepts) := by
  have further (whole text : List Char) :
      Runs whole true (.further part) text (some ([], text.dropWhile accepts)) := by
    induction text with
    | nil => exact .notFurther (takes whole [])
    | cons c text inductionHypothesis =>
        have run := takes whole (c :: text)
        rw [takeOne?] at run
        cases accepted : accepts c with
        | false =>
            rw [accepted] at run
            rw [List.dropWhile_cons_of_neg (by simp [accepted])]
            exact .notFurther run
        | true =>
            rw [accepted] at run
            rw [List.dropWhile_cons_of_pos accepted]
            exact .further run inductionHypothesis
  have same {whole text : List Char} {outcome : Outcome}
      (run : Runs whole true (.further part) text outcome) :
      Runs whole true (.many part) text outcome := by
    cases run with
    | further found more => exact .many found more
    | notFurther missing => exact .notMany missing
  exact fun whole text => same (further whole text)

theorem congr {other? : List Char → Option (List Char)} (takes : Takes part take?)
    (same : ∀ text, take? text = other? text) : Takes part other? := by
  rwa [← funext same]

end Takes

/-! ### Numbers -/

theorem takeOne?_or (accepts other : Char → Bool) (text : List Char) :
    (takeOne? accepts text).or (takeOne? other text) =
      takeOne? (fun c => accepts c || other c) text := by
  cases text with
  | nil => rfl
  | cons c text =>
      rw [takeOne?, takeOne?, takeOne?]
      cases accepts c <;> rfl

def takeDigits? (text : List Char) : Option (List Char) :=
  if text.takeWhile Char.isDigit = [] then none else some (text.dropWhile Char.isDigit)

theorem takes_digits : Takes (.atLeastOne .digit) takeDigits? := by
  refine ((Takes.one _).sequence (Takes.one _).many).congr fun text => ?_
  cases text with
  | nil => rfl
  | cons c text =>
      rw [takeOne?, takeDigits?]
      cases digit : c.isDigit <;> simp [digit]

theorem takes_mantissa :
    Takes .mantissa fun text => (Lexeme.readDigits? text).map fun read => read.2.2 := by
  refine ((takes_digits.sequence ((Takes.one _).sequence (Takes.one _).many).optional).choice
    ((Takes.one _).sequence takes_digits)).congr fun text => ?_
  have run := List.takeWhile_append_dropWhile (p := Char.isDigit) (l := text)
  by_cases empty : text.takeWhile Char.isDigit = []
  · rw [empty, List.nil_append] at run
    cases text with
    | nil => rfl
    | cons c tail =>
        by_cases point : c = '.'
        · subst point
          by_cases missing : tail.takeWhile Char.isDigit = [] <;>
            simp [takeDigits?, takeOne?, Lexeme.readDigits?, missing]
        · have digit : c.isDigit = false := by
            simpa [List.takeWhile_cons] using empty
          simp [takeDigits?, takeOne?, Lexeme.readDigits?, point, digit]
  · rw [takeDigits?, if_neg empty, Lexeme.readDigits?]
    cases text.dropWhile Char.isDigit with
    | nil => simp [takeOne?, empty]
    | cons c tail => by_cases point : c = '.' <;> simp [takeOne?, empty, point]

theorem takeSign_eq (text : List Char) :
    ((takeOne? (fun c => c = '+') text).or (takeOne? (fun c => c = '-') text)).getD text =
      (splitSign text).2 := by
  cases text with
  | nil => rfl
  | cons c text =>
      by_cases plus : c = '+'
      · subst plus
        rfl
      · by_cases minus : c = '-'
        · subst minus
          rfl
        · simp [takeOne?, splitSign, plus, minus]

theorem takes_exponent :
    Takes (.optional .exponent) fun text => some (Lexeme.readExponent text).2 := by
  refine ((Takes.one _).sequence (((Takes.one _).choice (Takes.one _)).optional.sequence
    takes_digits)).optional.congr fun text => ?_
  cases text with
  | nil => rfl
  | cons mark text =>
      rw [takeOne?, Lexeme.readExponent, Lexeme.readPower?]
      split
      next marked =>
        simp only [Option.bind_some, takeSign_eq, takeDigits?]
        cases (splitSign text).2.takeWhile Char.isDigit <;> rfl
      next => rfl

/-- The text behind a minus, if it begins with one. -/
def afterMinus (text : List Char) : List Char :=
  (takeOne? (fun c => c = '-') text).getD text

theorem takes_number :
    Takes Rule.number.body fun text => (unsigned? (afterMinus text)).map Prod.snd := by
  refine ((Takes.one _).optional.sequence (takes_mantissa.sequence takes_exponent)).congr
    fun text => ?_
  change ((Lexeme.readDigits? (afterMinus text)).map _).bind _ = _
  rw [unsigned?, Lexeme.read?]
  cases Lexeme.readDigits? (afterMinus text) <;> rfl

/-! ### Tokens -/

def Token.rule? : Token → Option Rule
  | .number _ => some .number
  | .name _ => some .identifier
  | .negation => some .neg
  | _ => none

/-- The rule takes the tokens that belong to it, and nothing else. -/
structure Lexes (rule : Rule) : Prop where
  mode_eq : rule.mode = .atomic
  takes : ∃ take?, Takes rule.body take? ∧ ∀ text rest, take? text = some rest ↔
    ∃ token : Token, token.rule? = some rule ∧ token.Begins text rest

theorem afterMinus_of_startsNumber {text : List Char} (starts : startsNumber text = true) :
    afterMinus text = text := by
  cases text with
  | nil => rfl
  | cons c text =>
      have plain : c ≠ '-' := by
        rintro rfl
        cases starts
      simp [afterMinus, takeOne?, plain]

theorem lexes_number : Lexes .number := by
  refine ⟨rfl, _, takes_number, fun text rest => ?_⟩
  constructor
  · intro taken
    obtain ⟨⟨digits, tail⟩, found, same⟩ := Option.map_eq_some_iff.mp taken
    cases same
    obtain ⟨split, longest⟩ := unsigned?_eq_some_iff.mp found
    cases text with
    | nil => exact ⟨.number digits, rfl, split, longest_signed_iff.mpr (.inl longest)⟩
    | cons c text =>
        by_cases minus : c = '-'
        · subst minus
          exact ⟨.number ('-' :: digits), rfl, congrArg _ split,
            longest_signed_iff.mpr (.inr ⟨digits, rfl, longest⟩)⟩
        · have plain : afterMinus (c :: text) = c :: text := by
            simp [afterMinus, takeOne?, minus]
          exact ⟨.number digits, rfl, plain ▸ split, longest_signed_iff.mpr (.inl longest)⟩
  · rintro ⟨token, rule, begins⟩
    cases token with
    | number digits =>
        obtain ⟨rfl, longest⟩ := begins
        apply Option.map_eq_some_iff.mpr
        rcases longest_signed_iff.mp longest with unsigned | ⟨unsigned, rfl, others⟩
        · refine ⟨(digits, rest), ?_, rfl⟩
          rw [afterMinus_of_startsNumber (unsigned.formed.startsNumber rest)]
          exact unsigned?_eq_some_iff.mpr ⟨rfl, unsigned⟩
        · exact ⟨(unsigned, rest), unsigned?_eq_some_iff.mpr ⟨rfl, others⟩, rfl⟩
    | _ => cases rule

theorem lexes_identifier : Lexes .identifier := by
  have takes : Takes Rule.identifier.body fun text =>
      (takeOne? isNameStart text).bind fun text => some (text.dropWhile isNameChar) := by
    have inside : Takes (.one Char.isAlphanum <|> .letter '_') (takeOne? isNameChar) :=
      ((Takes.one _).choice (Takes.one _)).congr (takeOne?_or _ _)
    have first : Takes (.one Char.isAlpha <|> .letter '_') (takeOne? isNameStart) :=
      ((Takes.one _).choice (Takes.one _)).congr (takeOne?_or _ _)
    exact first.sequence inside.many
  refine ⟨rfl, _, takes, fun text rest => ?_⟩
  constructor
  · intro taken
    cases text with
    | nil => cases taken
    | cons c text =>
        cases start : isNameStart c with
        | false => simp [takeOne?, start] at taken
        | true =>
            have behind : text.dropWhile isNameChar = rest := by
              simpa [takeOne?, start] using taken
            subst behind
            exact ⟨.name (c :: text.takeWhile isNameChar), rfl, by simp, longest_name start text⟩
  · rintro ⟨token, rule, begins⟩
    cases token with
    | name word =>
        obtain ⟨rfl, longest⟩ := begins
        obtain ⟨named, clear⟩ := longest_name_iff.mp longest
        cases word with
        | nil => cases named
        | cons c word =>
            rw [isName, Bool.and_eq_true, List.all_eq_true] at named
            rw [List.cons_append, takeOne?, if_pos named.1, Option.bind_some,
              dropWhile_run named.2 clear]
    | _ => cases rule

theorem lexes_neg : Lexes .neg := by
  have takes : Takes Rule.neg.body fun text =>
      (takeOne? (· = '-') text).bind fun text =>
        if startsNumber text then none else some text := by
    refine ((Takes.one _).sequence ((Takes.one _).choice (Takes.one _)).absent).congr
      fun text => ?_
    congr 1
    funext text
    rw [takeOne?_or]
    cases text with
    | nil => rfl
    | cons c text => cases starts : startsNumber (c :: text) <;> simp_all [takeOne?, startsNumber]
  refine ⟨rfl, _, takes, fun text rest => ?_⟩
  constructor
  · intro taken
    cases text with
    | nil => cases taken
    | cons c text =>
        by_cases minus : c = '-'
        · subst minus
          cases starts : startsNumber text with
          | true => simp [takeOne?, starts] at taken
          | false =>
              have same : text = rest := by simpa [takeOne?, starts] using taken
              subst same
              exact ⟨.negation, rfl, rfl, startsNumber_eq_false_iff.mp starts⟩
        · simp [takeOne?, minus] at taken
  · rintro ⟨token, rule, begins⟩
    cases token with
    | negation =>
        obtain ⟨rfl, sign⟩ := begins
        simp [takeOne?, startsNumber_eq_false_iff.mpr sign]
    | _ => cases rule

variable {rule : Rule} {text rest : List Char}

theorem Lexes.found (lexes : Lexes rule) (token : Token) (belongs : token.rule? = some rule)
    (begins : token.Begins text rest) :
    Runs whole atomic (.rule rule) text (some ([⟨rule, token.spelling, []⟩], rest)) := by
  obtain ⟨take?, takes, taken_iff⟩ := lexes.takes
  have run := takes whole text
  rw [(taken_iff text rest).mpr ⟨token, belongs, begins⟩] at run
  have found : token? .start text = some (token, rest) := operandToken?_eq_some_iff.mpr begins
  have spelled : consumed text rest = token.spelling := by
    rw [consumed, (spelling_of_token? found).1]
    simp
  have made : rule.pairs (consumed text rest) [] = [⟨rule, token.spelling, []⟩] := by
    rw [Rule.pairs, lexes.mode_eq, spelled]
  have inside : (atomic || decide (rule.mode = .atomic)) = true := by simp [lexes.mode_eq]
  rw [← made]
  apply Runs.rule
  rw [inside]
  exact run

theorem Lexes.missing (lexes : Lexes rule)
    (apart : ∀ (token : Token) (rest : List Char), token.Begins text rest →
      token.rule? ≠ some rule) :
    Runs whole atomic (.rule rule) text none := by
  obtain ⟨take?, takes, taken_iff⟩ := lexes.takes
  have run := takes whole text
  have inside : (atomic || decide (rule.mode = .atomic)) = true := by simp [lexes.mode_eq]
  apply Runs.notRule
  rw [inside]
  cases taken : take? text with
  | none =>
      rw [taken] at run
      exact run
  | some rest =>
      obtain ⟨token, belongs, begins⟩ := (taken_iff text rest).mp taken
      exact absurd belongs (apart token rest begins)

theorem Token.Begins.unique {first second : Token} {tail : List Char}
    (begins : first.Begins text rest) (other : second.Begins text tail) :
    first = second ∧ rest = tail := by
  have found := operandToken?_eq_some_iff.mpr begins
  rw [operandToken?_eq_some_iff.mpr other] at found
  cases found
  exact ⟨rfl, rfl⟩

theorem Token.Begins.skip_eq {token : Token} (begins : token.Begins text rest) :
    skip false text = text := by
  have found : token? .start text = some (token, rest) := operandToken?_eq_some_iff.mpr begins
  exact dropWhile_of_head (solid_of_token? found)

theorem Lexes.missing_of_begins (lexes : Lexes rule) {token : Token}
    (begins : token.Begins text rest) (other : token.rule? ≠ some rule) :
    Runs whole atomic (.rule rule) text none := by
  refine lexes.missing fun token tail found => ?_
  rwa [← (begins.unique found).1]

theorem runs_letter (c : Char) (rest : List Char) :
    Runs whole atomic (.letter c) (c :: rest) (some ([], rest)) :=
  .one (decide_eq_true rfl)

theorem not_runs_letter {c : Char} (apart : ∀ further, text ≠ c :: further) :
    Runs whole atomic (.letter c) text none := by
  refine .notOne fun d first => decide_eq_false ?_
  rintro rfl
  obtain ⟨further, same⟩ := List.head?_eq_some_iff.mp first
  exact apart further same

/-! ### Operators -/

theorem runs_operation (operator : Operator) (rest : List Char) :
    Runs whole false (.rule (.operation operator)) (operator.symbol :: rest)
      (some ([⟨.operation operator, [operator.symbol], []⟩], rest)) := by
  have spelled : consumed (operator.symbol :: rest) rest = [operator.symbol] := by
    simp [consumed]
  rw [← spelled]
  exact .normal rfl (runs_letter operator.symbol rest)

theorem not_runs_operation {operator : Operator}
    (apart : ∀ further, text ≠ operator.symbol :: further) :
    Runs whole false (.rule (.operation operator)) text none :=
  .notRule (not_runs_letter apart)

theorem runs_infixed (operator : Operator) (rest : List Char) :
    Runs whole false (.rule .infixed) (operator.symbol :: rest)
      (some ([⟨.operation operator, [operator.symbol], []⟩], rest)) := by
  have found : Runs whole false (.rule (.operation operator)) _ _ := runs_operation operator rest
  have missing (other : Operator) (apart : operator.symbol ≠ other.symbol) :
      Runs whole false (.rule (.operation other)) (operator.symbol :: rest) none :=
    not_runs_operation fun further same => apart (List.cons.inj same).1
  apply Runs.silent rfl
  -- The alternatives before the operator's own fail.
  cases operator <;>
    repeat first
      | exact found
      | exact .chosen found
      | refine .otherwise (missing _ (by decide)) ?_

theorem not_runs_infixed (apart : ∀ operator : Operator, ∀ further,
    text ≠ operator.symbol :: further) : Runs whole false (.rule .infixed) text none := by
  have missing (operator : Operator) : Runs whole false (.rule (.operation operator)) text none :=
    not_runs_operation (apart operator)
  exact .silent rfl (.otherwise (missing _) (.otherwise (missing _) (.otherwise (missing _)
    (.otherwise (missing _) (.otherwise (missing _) (missing _))))))

/-! ### Terms -/

theorem runs_primary_number {digits : List Char} (begins : (Token.number digits).Begins text rest) :
    Runs whole false (.rule .primary) text (some ([⟨.number, digits, []⟩], rest)) :=
  .silent rfl (.chosen (lexes_number.found _ rfl begins))

theorem runs_primary_name {word : List Char} (begins : (Token.name word).Begins text rest) :
    Runs whole false (.rule .primary) text (some ([⟨.identifier, word, []⟩], rest)) :=
  .silent rfl (.otherwise (lexes_number.missing_of_begins begins nofun)
    (.chosen (lexes_identifier.found _ rfl begins)))

theorem runs_primary_opening {outcome : Outcome}
    (run : Runs whole false (.letter '(' >> .rule .expr >> .letter ')') ('(' :: rest) outcome) :
    Runs whole false (.rule .primary) ('(' :: rest) outcome := by
  have begins : Token.opening.Begins ('(' :: rest) rest := rfl
  exact .silent rfl (.otherwise (lexes_number.missing_of_begins begins nofun)
    (.otherwise (lexes_identifier.missing_of_begins begins nofun) run))

theorem runs_primary_parentheses {inner behind : List Char} {pairs : List Pair}
    (content : Runs whole false (.rule .expr) (skip false inner) (some (pairs, behind)))
    (closed : skip false behind = ')' :: rest) :
    Runs whole false (.rule .primary) ('(' :: inner) (some (pairs, rest)) := by
  have closing : Runs whole false (.letter ')') (skip false behind) (some ([], rest)) :=
    closed ▸ runs_letter ')' rest
  have run := (runs_letter '(' inner).sequence (content.sequence closing)
  rw [List.nil_append, List.append_nil] at run
  exact runs_primary_opening run

theorem not_runs_primary (number : Runs whole false (.rule .number) text none)
    (identifier : Runs whole false (.rule .identifier) text none)
    (apart : ∀ further, text ≠ '(' :: further) : Runs whole false (.rule .primary) text none :=
  .silent rfl (.otherwise number (.otherwise identifier (.notFirst (not_runs_letter apart))))

theorem runs_term {middle : List Char} {signs pairs : List Pair}
    (minuses : Runs whole false (.many (.rule .neg)) text (some (signs, middle)))
    (primary : Runs whole false (.rule .primary) (skip false middle) (some (pairs, rest))) :
    Runs whole false (.rule .term) text (some (signs ++ pairs, rest)) :=
  .silent rfl (.sequence minuses primary)

theorem exists_of_runs_term {pairs : List Pair}
    (run : Runs whole false (.rule .term) text (some (pairs, rest))) :
    ∃ signs middle others, pairs = signs ++ others ∧
      Runs whole false (.many (.rule .neg)) text (some (signs, middle)) ∧
      Runs whole false (.rule .primary) (skip false middle) (some (others, rest)) := by
  cases run with
  | rule inside =>
      change Runs whole false (.sequence (.many (.rule .neg)) (.rule .primary)) _ _ at inside
      cases inside with
      | sequence minuses primary => exact ⟨_, _, _, rfl, minuses, primary⟩

end Worksheet.Grammar
