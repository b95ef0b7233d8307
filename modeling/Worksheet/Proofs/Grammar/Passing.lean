import Worksheet.Proofs.Grammar.Derivation

/-!
# How far the scanner gets

The scanner passes over the tokens of a text until it comes to the end behind an operand, or
to a place where no token fits.  What it has passed over it passes over whatever else comes
behind, as long as that does not go on with the last token.  Hence a text that has been
passed over can be completed to an expression.
-/

namespace Worksheet.Grammar

open Decimal Text

/-! ### What tokens are written with -/

/-- The range from the opening parenthesis to the last letter.  It holds no blank. -/
def IsMark (c : Char) : Prop :=
  40 ≤ c.toNat ∧ c.toNat ≤ 122

theorem IsWordChar.isMark {c : Char} (word : IsWordChar c) : IsMark c :=
  ⟨(show 40 ≤ 45 by decide).trans word.1, word.2⟩

theorem IsNumeralChar.isMark {c : Char} (numeral : IsNumeralChar c) : IsMark c := by
  rcases numeral with digit | other
  · exact (isWordChar_of_isDigit digit).isMark
  · simp only [List.mem_cons, List.not_mem_nil, or_false] at other
    rcases other with rfl | rfl | rfl | rfl | rfl <;> constructor <;> decide

theorem isMark_symbol (operator : Operator) : IsMark operator.symbol := by
  cases operator <;> constructor <;> decide

theorem IsMark.isBlank {c : Char} (mark : IsMark c) : isBlank c = false := by
  obtain ⟨low, high⟩ := mark
  simp only [Text.isBlank, blankRanges, List.any_cons, List.any_nil, Bool.or_false,
    Bool.or_eq_false_iff, Bool.and_eq_false_iff, decide_eq_false_iff_not]
  omega

theorem IsMark.utf8Size {c : Char} (mark : IsMark c) : c.utf8Size = 1 :=
  Char.utf8Size_eq_one_iff.mpr (mark.2.trans (by decide))

def Token.spelling : Token → List Char
  | .number text | .name text => text
  | .negation => ['-']
  | .opening => ['(']
  | .closing => [')']
  | .infixed operator => [operator.symbol]

theorem begins_or_follows {place : Place} {text rest : List Char} {token : Token}
    (found : token? place text = some (token, rest)) :
    token.Begins text rest ∨ token = .closing ∧ text = ')' :: rest ∨
      ∃ operator, token = .infixed operator ∧ text = operator.symbol :: rest := by
  cases place with
  | start | operand => exact .inl (operandToken?_eq_some_iff.mp found)
  | after => exact .inr (operatorToken?_eq_some_iff.mp found)

theorem spelling_of_token? {place : Place} {text rest : List Char} {token : Token}
    (found : token? place text = some (token, rest)) :
    text = token.spelling ++ rest ∧ token.spelling ≠ [] ∧ ∀ c ∈ token.spelling, IsMark c := by
  have single {c : Char} (mark : IsMark c) : ∀ d ∈ [c], IsMark d := by simpa using mark
  rcases begins_or_follows found with begins | ⟨rfl, rfl⟩ | ⟨operator, rfl, rfl⟩
  · cases token with
    | number digits =>
        obtain ⟨rfl, longest⟩ := begins
        have solid := longest.formed.solid
        refine ⟨rfl, ?_, fun c member => (longest.formed.isNumeralChar c member).isMark⟩
        rintro rfl
        cases solid
    | name word =>
        obtain ⟨rfl, longest⟩ := begins
        have named := longest.formed
        refine ⟨rfl, ?_, fun c member =>
          (isWordChar_of_isNameChar (isNameChar_of_isName named c member)).isMark⟩
        rintro rfl
        cases named
    | negation => exact ⟨begins.1, List.cons_ne_nil _ _, single ⟨by decide, by decide⟩⟩
    | opening => exact ⟨begins, List.cons_ne_nil _ _, single ⟨by decide, by decide⟩⟩
    | closing | infixed => cases begins
  · exact ⟨rfl, List.cons_ne_nil _ _, single ⟨by decide, by decide⟩⟩
  · exact ⟨rfl, List.cons_ne_nil _ _, single (isMark_symbol operator)⟩

/-! ### What may come behind -/

/-- No token goes on with the text. -/
def Breaks (text : List Char) : Prop :=
  ∀ c ∈ text.head?, isBlank c = true ∨ c = ')'

theorem Breaks.not_isNumeralChar {text : List Char} (breaks : Breaks text) {c : Char}
    (first : c ∈ text.head?) : ¬IsNumeralChar c := by
  intro numeral
  rcases breaks c first with blank | rfl
  · rw [numeral.isMark.isBlank] at blank
    cases blank
  · exact numeral.ne_parenthesis.2 rfl

theorem Breaks.not_isNameChar {text : List Char} (breaks : Breaks text) {c : Char}
    (first : c ∈ text.head?) : isNameChar c = false := by
  cases named : isNameChar c with
  | false => rfl
  | true =>
      have word := isWordChar_of_isNameChar named
      rcases breaks c first with blank | rfl
      · rw [word.isBlank] at blank
        cases blank
      · exact absurd rfl word.ne_parenthesis.2

/-- What is longest stays so where other text comes that does not go on with it. -/
theorem Longest.again {form : List Char → Prop} {token more rest other : List Char}
    (longest : Longest form token (more ++ rest))
    (apart : ∀ longer, form longer → ∀ c ∈ longer, c ∉ other.head?) :
    Longest form token (more ++ other) := by
  refine ⟨longest.formed, fun longer tail same formed => ?_⟩
  rw [← List.append_assoc] at same
  obtain ⟨behind, inside⟩ : ∃ behind, token ++ more = longer ++ behind := by
    rcases List.append_eq_append_iff.mp same with ⟨beyond, rfl, rfl⟩ | ⟨behind, inside, -⟩
    · cases beyond with
      | nil => exact ⟨[], by simp⟩
      | cons c beyond => exact absurd rfl (apart _ formed c (by simp))
    · exact ⟨behind, inside⟩
  refine longest.length_le longer (behind ++ rest) ?_ formed
  rw [← List.append_assoc, inside, List.append_assoc]

/-- A token is found again where other text comes, near behind it or far off. -/
theorem token?_again {place : Place} {token : Token} {more rest other : List Char}
    (found : token? place (token.spelling ++ (more ++ rest)) = some (token, more ++ rest))
    (breaks : Breaks other) :
    token? place (token.spelling ++ (more ++ other)) = some (token, more ++ other) := by
  cases place with
  | after =>
      apply operatorToken?_eq_some_iff.mpr
      rcases operatorToken?_eq_some_iff.mp found with ⟨rfl, -⟩ | ⟨operator, rfl, -⟩
      · exact .inl ⟨rfl, rfl⟩
      · exact .inr ⟨operator, rfl, rfl⟩
  | start | operand =>
      apply operandToken?_eq_some_iff.mpr
      have begins := operandToken?_eq_some_iff.mp found
      cases token with
      | number digits =>
          refine ⟨rfl, begins.2.again fun longer formed c member first => ?_⟩
          exact breaks.not_isNumeralChar first (formed.isNumeralChar c member)
      | name word =>
          refine ⟨rfl, begins.2.again fun longer formed c member first => ?_⟩
          have named := isNameChar_of_isName formed c member
          rw [breaks.not_isNameChar first] at named
          cases named
      | negation =>
          refine ⟨rfl, fun c first => ?_⟩
          cases more with
          | cons d more => exact begins.2 c first
          | nil =>
              have stop := breaks.not_isNumeralChar first
              simp only [IsNumeralChar, not_or] at stop
              refine ⟨eq_false_of_ne_true stop.1, ?_⟩
              rintro rfl
              simp at stop
      | opening => rfl
      | closing | infixed => cases begins

/-! ### Passing over tokens -/

/-- From one place of a text the scanner comes to another one over tokens, of which none
closes a parenthesis that is not open. -/
inductive Passes : Place → Nat → List Char → Place → Nat → List Char → Prop where
  | here {place : Place} {depth : Nat} {text rest : List Char} :
      Gap text rest → Passes place depth text place depth rest
  | past {place later : Place} {depth level : Nat} {text start tail rest : List Char}
      {token : Token} : Gap text start → token? place start = some (token, tail) →
      (token = .closing → depth ≠ 0) →
      Passes token.next (token.depth depth) tail later level rest →
      Passes place depth text later level rest

theorem balanced_of_token? {place : Place} {text rest : List Char} {token : Token}
    (found : token? place text = some (token, rest)) {depth : Nat}
    (closes : token = .closing → depth ≠ 0) :
    balanced depth text = balanced (token.depth depth) rest := by
  rcases begins_or_follows found with begins | ⟨rfl, rfl⟩ | ⟨operator, rfl, rfl⟩
  · exact begins.balanced depth
  · simp [balanced, closes rfl, Token.depth]
  · exact balanced_symbol operator depth rest

theorem ne_zero_of_balanced {place : Place} {text rest : List Char} {token : Token}
    (found : token? place text = some (token, rest)) {depth : Nat}
    (closed : balanced depth text = true) : token = .closing → depth ≠ 0 := by
  rintro rfl rfl
  rw [(spelling_of_token? found).1] at closed
  cases closed

theorem length_le_of_gap {text start : List Char} (gap : Gap text start) :
    start.length ≤ text.length := by
  obtain ⟨layout, -, rfl⟩ := gap
  simp

/-- A balanced text is passed over to the end or as far as it makes sense. -/
theorem passes_of_scan (place : Place) (depth : Nat) (text : List Char)
    (closed : balanced depth text = true) :
    (∃ tokens level, scan place depth text = .ok tokens ∧
      Passes place depth text .after level []) ∨
    ∃ mismatch, scan place depth text = .error mismatch ∧
      Passes place depth text mismatch.place mismatch.depth mismatch.rest := by
  rcases scan_steps place depth text with ⟨rfl, gap, done⟩ | ⟨start, gap, -, done⟩ |
    ⟨start, token, tail, gap, found, done⟩
  · exact .inl ⟨_, depth, done, .here gap⟩
  · exact .inr ⟨_, done, .here gap⟩
  · rw [gap.balanced] at closed
    have closes := ne_zero_of_balanced found closed
    rw [balanced_of_token? found closes] at closed
    have shorter : tail.length < text.length :=
      (length_lt_of_token? found).trans_le (length_le_of_gap gap)
    rcases passes_of_scan token.next (token.depth depth) tail closed with
      ⟨tokens, level, scanned, passes⟩ | ⟨mismatch, scanned, passes⟩
    · exact .inl ⟨_, level, by rw [done, scanned]; rfl, .past gap found closes passes⟩
    · exact .inr ⟨mismatch, by rw [done, scanned]; rfl, .past gap found closes passes⟩
termination_by text.length

namespace Passes

variable {place later : Place} {depth level : Nat} {text rest : List Char}

theorem scan (passes : Passes place depth text later level rest) :
    ∃ tokens, Grammar.scan place depth text =
      (Grammar.scan later level rest).map (tokens ++ ·) := by
  induction passes with
  | @here place depth text rest gap =>
      refine ⟨[], ?_⟩
      rw [gap.scan]
      cases Grammar.scan place depth rest <;> rfl
  | @past place later depth level text start tail rest token gap found _ _ inductionHypothesis =>
      obtain ⟨tokens, scanned⟩ := inductionHypothesis
      refine ⟨token :: tokens, ?_⟩
      rw [gap.scan, scan_of_token? found, scanned]
      cases Grammar.scan later level rest <;> rfl

theorem balanced (passes : Passes place depth text later level rest) :
    Grammar.balanced depth text = Grammar.balanced level rest := by
  induction passes with
  | here gap => exact gap.balanced _
  | past gap found closes _ inductionHypothesis =>
      rw [gap.balanced, balanced_of_token? found closes, inductionHypothesis]

/-- What has been passed over is passed over again, whatever other text comes behind. -/
theorem exists_before (passes : Passes place depth text later level rest) :
    ∃ before, text = before ++ rest ∧ (∀ c ∈ before, isLayout c = true ∨ IsMark c) ∧
      ∀ other, Breaks other → Passes place depth (before ++ other) later level other := by
  induction passes with
  | here gap =>
      obtain ⟨layout, all, rfl⟩ := gap
      exact ⟨layout, rfl, fun c member => .inl (all c member),
        fun other _ => .here ⟨layout, all, rfl⟩⟩
  | @past place later depth level text start tail rest token gap found closes _
      inductionHypothesis =>
      obtain ⟨before, rfl, known, again⟩ := inductionHypothesis
      obtain ⟨layout, all, rfl⟩ := gap
      obtain ⟨rfl, -, marks⟩ := spelling_of_token? found
      refine ⟨layout ++ (token.spelling ++ before), by simp, fun c member => ?_,
        fun other breaks => ?_⟩
      · rcases List.mem_append.mp member with first | member
        · exact .inl (all c first)
        · exact (List.mem_append.mp member).elim (fun inside => .inr (marks c inside)) (known c)
      · rw [List.append_assoc, List.append_assoc]
        exact .past ⟨layout, all, rfl⟩ (token?_again found breaks) closes (again other breaks)

theorem zero_lt_or_gap (passes : Passes place depth text later level rest)
    (start : later = .start) : 0 < level ∨ place = .start ∧ level = depth ∧ Gap text rest := by
  induction passes with
  | here gap => exact .inr ⟨start, rfl, gap⟩
  | @past place later depth level text first tail rest token _ _ _ _ inductionHypothesis =>
      refine .inl ((inductionHypothesis start).elim id ?_)
      rintro ⟨next, rfl, -⟩
      cases token <;> cases next
      exact Nat.succ_pos depth

/-- The scanner stops between two pieces of a text if the second begins with a blank, unless
it stops within the first. -/
theorem split {first second : List Char} (passes : Passes place depth text later level rest)
    (whole : text = first ++ second) (blank : ∀ c ∈ second.head?, isBlank c = true) :
    (∃ left, left ≠ [] ∧ rest = left ++ second) ∨ ∃ middle between,
      Passes place depth text middle between second ∧
        Passes middle between second later level rest := by
  -- No token holds a blank, so none of them reaches over the border.
  induction passes generalizing first with
  | @here place depth text rest gap =>
      obtain ⟨layout, all, same⟩ := gap
      rcases List.append_eq_append_iff.mp (whole.symm.trans same) with
        ⟨more, rfl, rfl⟩ | ⟨left, rfl, rfl⟩
      · exact .inr ⟨place, depth, .here ⟨first, fun c member => all c (by simp [member]), whole⟩,
          .here ⟨more, fun c member => all c (by simp [member]), rfl⟩⟩
      · cases left with
        | nil => exact .inr ⟨place, depth, .here ⟨layout, all, same⟩, .here (gap_refl _)⟩
        | cons c left => exact .inl ⟨c :: left, List.cons_ne_nil _ _, rfl⟩
  | @past place later depth level text start tail rest token gap found closes passes
      inductionHypothesis =>
      obtain ⟨layout, all, same⟩ := gap
      obtain ⟨spelled, filled, marks⟩ := spelling_of_token? found
      rcases List.append_eq_append_iff.mp (whole.symm.trans same) with
        ⟨more, rfl, rfl⟩ | ⟨left, rfl, rfl⟩
      · exact .inr ⟨place, depth, .here ⟨first, fun c member => all c (by simp [member]), whole⟩,
          .past ⟨more, fun c member => all c (by simp [member]), rfl⟩ found closes passes⟩
      · rcases List.append_eq_append_iff.mp spelled with ⟨more, covers, rfl⟩ | ⟨right, rfl, rfl⟩
        · cases more with
          | nil =>
              rw [List.append_nil] at covers
              subst covers
              exact .inr ⟨_, _, .past ⟨layout, all, same⟩ found closes (.here (gap_refl _)), passes⟩
          | cons c more =>
              have solid := (marks c (by simp [covers])).isBlank
              rw [blank c rfl] at solid
              cases solid
        · refine (inductionHypothesis rfl).imp_right ?_
          rintro ⟨middle, between, before, after⟩
          exact ⟨middle, between, .past ⟨layout, all, same⟩ found closes before, after⟩

end Passes

/-! ### Completing a text -/

/-- What makes an expression of a text that has been passed over as far as the place: an
operand if one has to come, and the closing of every parenthesis that is open. -/
def Place.completion (place : Place) (depth : Nat) : List Char :=
  (if place = .after then [] else [' ', 'x']) ++ List.replicate depth ')'

theorem breaks_completion (place : Place) (depth : Nat) : Breaks (place.completion depth) := by
  intro c first
  cases place with
  | start | operand =>
      cases first
      exact .inl (by decide)
  | after =>
      cases depth with
      | zero => cases first
      | succ depth =>
          cases first
          exact .inr rfl

theorem balanced_closings (depth : Nat) : balanced depth (List.replicate depth ')') = true := by
  induction depth with
  | zero => rfl
  | succ depth inductionHypothesis => simpa [List.replicate_succ, balanced]

theorem balanced_completion (place : Place) (depth : Nat) :
    balanced depth (place.completion depth) = true := by
  cases place <;> exact balanced_closings depth

theorem exists_scan_closings (depth level : Nat) :
    ∃ tokens, scan .after level (List.replicate depth ')') = .ok tokens := by
  induction depth generalizing level with
  | zero => exact ⟨[], scan_after_nil level⟩
  | succ depth inductionHypothesis =>
      obtain ⟨tokens, scanned⟩ := inductionHypothesis (level - 1)
      have found : token? .after (')' :: List.replicate depth ')') =
          some (.closing, List.replicate depth ')') := rfl
      refine ⟨.closing :: tokens, ?_⟩
      rw [List.replicate_succ, scan_of_token? found, Token.next, Token.depth, scanned]
      rfl

theorem cuts_operand {rest : List Char} (breaks : Breaks rest) :
    Cuts [.name ['x']] ('x' :: rest) rest := by
  have found : operandToken? (['x'] ++ rest) = some (.name ['x'], rest) :=
    operandToken?_name rfl fun c first => breaks.not_isNameChar first
  exact cuts_of_operandToken? found rfl fun _ => rfl

theorem exists_scan_completion (place : Place) (depth : Nat) :
    ∃ tokens, scan place depth (place.completion depth) = .ok tokens := by
  obtain ⟨tokens, scanned⟩ := exists_scan_closings depth depth
  have operand {place : Place} (before : place ≠ .after) :
      scan place depth (' ' :: 'x' :: List.replicate depth ')') =
        .ok (.name ['x'] :: tokens) := by
    have cuts := cuts_operand (breaks_completion .after depth) place depth before
    rw [Place.completion, if_pos rfl, List.nil_append] at cuts
    rw [(gap_space _).scan, cuts, scanned]
    rfl
  cases place with
  | start => exact ⟨_, operand (by simp)⟩
  | operand => exact ⟨_, operand (by simp)⟩
  | after => exact ⟨tokens, scanned⟩

/-- What has been passed over is the beginning of an expression. -/
theorem Passes.exists_calculation {text rest : List Char} {place : Place} {depth : Nat}
    (passes : Passes .start 0 text place depth rest) :
    ∃ before, text = before ++ rest ∧ (∀ c ∈ before, isLayout c = true ∨ IsMark c) ∧
      Calculation (before ++ place.completion depth) := by
  obtain ⟨before, whole, known, again⟩ := passes.exists_before
  have completed := again _ (breaks_completion place depth)
  obtain ⟨first, scanned⟩ := completed.scan
  obtain ⟨last, ended⟩ := exists_scan_completion place depth
  rw [ended, Except.map] at scanned
  have closed := completed.balanced.trans (balanced_completion place depth)
  obtain ⟨phrase, found⟩ := exists_ofTokens? scanned closed
  have tokens := Phrase.ofTokens?_eq_some_iff.mp found
  rw [tokens] at scanned
  exact ⟨before, whole, known, calculation_of_tokenize scanned⟩

end Worksheet.Grammar
