import Worksheet.Proofs.Expr.Climbing
import Worksheet.Proofs.Expr.Negation
import Worksheet.Proofs.Grammar.Running

/-!
# The grammar finds what is read

Looking for an expression in a text always comes to an end.  It finds one if and only if the
text can be derived, and what the pairs that it finds are climbed to is what is read.  A
derivation may leave layout behind a part that a run has passed over already, so the two
agree on what is left of the text only up to layout.
-/

namespace Worksheet.Grammar

open Decimal Text

variable {whole text rest : List Char}

/-! ### Pairs and symbols -/

theorem Pair.symbols?_append {kind : Kind} {first second : List Pair}
    {left right : List (Symbol (Except ReadError Expr))}
    (read : Pair.symbols? kind first = some left)
    (others : Pair.symbols? kind second = some right) :
    Pair.symbols? kind (first ++ second) = some (left ++ right) := by
  induction first generalizing left with
  | nil =>
      cases read
      exact others
  | cons pair pairs inductionHypothesis =>
      rw [Pair.symbols?] at read
      obtain ⟨symbol, found, read⟩ := Option.bind_eq_some_iff.mp read
      obtain ⟨symbols, rest, same⟩ := Option.bind_eq_some_iff.mp read
      cases same
      rw [List.cons_append, Pair.symbols?, found, inductionHypothesis rest]
      rfl

theorem Pair.symbol?_expr {kind : Kind} {phrase : Phrase} {inner : List Pair}
    (read : Pair.symbols? kind inner = some (phrase.symbols kind)) (text : List Char) :
    Pair.symbol? kind ⟨.expr, text, inner⟩ = some (.operand (phrase.expr kind)) := by
  rw [Pair.symbol?, read]
  simp [phrase.climb_symbols kind]

/-! ### What can be derived is found -/

theorem Derives.skip_eq {part : Part} (derives : Derives part text rest) :
    skip false text = text := by
  induction derives with
  | @number digits rest longest =>
      have begins : (Token.number digits).Begins (digits ++ rest) rest := ⟨rfl, longest⟩
      exact begins.skip_eq
  | @name word rest longest =>
      have begins : (Token.name word).Begins (word ++ rest) rest := ⟨rfl, longest⟩
      exact begins.skip_eq
  | parentheses | minus => rfl
  | single _ inductionHypothesis => exact inductionHypothesis
  | operation _ _ _ _ _ inductionHypothesis => exact inductionHypothesis

theorem skip_symbol (operator : Operator) (rest : List Char) :
    skip false (operator.symbol :: rest) = operator.symbol :: rest := by
  cases operator <;> rfl

/-- No operator comes next. -/
def Ends (text : List Char) : Prop :=
  ∀ operator : Operator, ∀ further, skip false text ≠ operator.symbol :: further

/-- The part is found by the grammar, and its pairs stand for what the scanner takes it for. -/
def Part.Found (whole : List Char) (kind : Kind) : Part → List Char → List Char → Prop
  | .term, text, rest => ∃ (minuses : Nat) (primary : Primary) (pairs : List Pair),
      Cuts (List.replicate minuses .negation ++ primary.tokens) text rest ∧
      Pair.symbols? kind pairs = some (Signed.symbols ⟨minuses, primary.expr kind⟩) ∧
      Runs whole false (.rule .term) text (some (pairs, rest))
  | .expression, text, rest => Ends rest →
      ∃ (phrase : Phrase) (pairs others : List Pair) (behind : List Char),
      Cuts phrase.tokens text rest ∧
      Pair.symbols? kind (pairs ++ others) = some (phrase.symbols kind) ∧
      Runs whole false (.rule .term) text (some (pairs, behind)) ∧
      Runs whole false (.further (.rule .infixed >> .rule .term)) behind (some (others, rest))

theorem exists_expr {kind : Kind} (found : Part.expression.Found whole kind text rest)
    (ends : Ends rest) : ∃ (phrase : Phrase) (pair : Pair) (behind : List Char),
      Cuts phrase.tokens text rest ∧
      pair.symbol? kind = some (.operand (phrase.expr kind)) ∧
      Runs whole false (.rule .expr) text (some ([pair], behind)) ∧ Gap rest behind := by
  obtain ⟨phrase, pairs, others, middle, cuts, read, term, further⟩ := found ends
  obtain ⟨behind, many, gap⟩ := further.many_of_further
  exact ⟨phrase, _, behind, cuts, Pair.symbol?_expr read _, .normal rfl (.sequence term many), gap⟩

theorem Part.Found.plain {kind : Kind} (primary : Primary) {pair : Pair} {token : Token}
    {tail : List Char} (begins : token.Begins text tail) (plain : token.rule? ≠ some .neg)
    (cuts : Cuts primary.tokens text rest)
    (read : pair.symbol? kind = some (.operand (primary.expr kind)))
    (run : Runs whole false (.rule .primary) text (some ([pair], rest))) :
    Part.term.Found whole kind text rest := by
  have unsigned : Runs whole false (.many (.rule .neg)) text (some ([], text)) :=
    .notMany (lexes_neg.missing_of_begins begins plain)
  rw [← begins.skip_eq] at run
  refine ⟨0, primary, _, cuts, ?_, runs_term unsigned run⟩
  rw [List.nil_append, Pair.symbols?, read]
  rfl

theorem Part.Found.minus {kind : Kind} {operand : List Char}
    (sign : ∀ c ∈ text.head?, c.isDigit = false ∧ c ≠ '.') (gap : Gap text operand)
    (solid : skip false operand = operand) (found : Part.term.Found whole kind operand rest) :
    Part.term.Found whole kind ('-' :: text) rest := by
  obtain ⟨minuses, primary, pairs, cuts, read, run⟩ := found
  obtain ⟨signs, middle, others, rfl, many, last⟩ := exists_of_runs_term run
  -- The minuses of the operand are those that come behind the first one.
  obtain ⟨other, further, same⟩ := many.further_of_many (gap.skip_eq.trans solid)
  have first : Runs whole false (.rule .neg) ('-' :: text)
      (some ([⟨.neg, ['-'], []⟩], text)) :=
    lexes_neg.found .negation rfl ⟨rfl, sign⟩
  rw [← same.skip_eq] at last
  refine ⟨minuses + 1, primary, _, cuts.minus (startsNumber_eq_false_iff.mpr sign) gap, ?_,
    runs_term (first.many further) last⟩
  have one : Pair.symbols? kind [⟨.neg, ['-'], []⟩] = some [.sign] := rfl
  have joined := Pair.symbols?_append one read
  rwa [List.append_assoc]

theorem Part.Found.single {kind : Kind} (found : Part.term.Found whole kind text rest) :
    Part.expression.Found whole kind text rest := by
  intro ends
  obtain ⟨minuses, primary, pairs, cuts, read, run⟩ := found
  refine ⟨.last minuses primary, pairs, [], rest, cuts, ?_, run,
    .notFurther (.notFirst (not_runs_infixed ends))⟩
  rw [List.append_nil, read, Phrase.symbols_last]

theorem Part.Found.operation {kind : Kind} {behind further right : List Char}
    (left : Part.term.Found whole kind text behind) (operator : Operator)
    (before : Gap behind (operator.symbol :: further)) (after : Gap further right)
    (solid : skip false right = right) (found : Part.expression.Found whole kind right rest) :
    Part.expression.Found whole kind text rest := by
  intro ends
  obtain ⟨minuses, primary, pairs, cuts, read, run⟩ := left
  obtain ⟨phrase, inner, others, last, rightCuts, rightRead, term, more⟩ := found ends
  have symbol : skip false behind = operator.symbol :: further :=
    before.skip_eq.trans (skip_symbol operator further)
  rw [← solid, ← after.skip_eq] at term
  have operation := Runs.sequence (runs_infixed operator further) term
  rw [← symbol] at operation
  refine ⟨.more minuses primary operator phrase, pairs, _, behind,
    cuts.operation operator before after rightCuts, ?_, run, .further operation more⟩
  have one : Pair.symbols? kind [⟨.operation operator, [operator.symbol], []⟩] =
      some [.binary operator] := rfl
  rw [Phrase.symbols_more, List.append_assoc]
  exact Pair.symbols?_append read (Pair.symbols?_append one rightRead)

theorem Derives.found {part : Part} (derives : Derives part text rest) (whole : List Char)
    (kind : Kind) : part.Found whole kind text rest := by
  induction derives with
  | @number digits rest longest =>
      have begins : (Token.number digits).Begins (digits ++ rest) rest := ⟨rfl, longest⟩
      have token := operandToken?_eq_some_iff.mpr begins
      exact .plain (.number digits) begins nofun
        (cuts_of_operandToken? token rfl fun _ => rfl) rfl (runs_primary_number begins)
  | @name word rest longest =>
      have begins : (Token.name word).Begins (word ++ rest) rest := ⟨rfl, longest⟩
      have token := operandToken?_eq_some_iff.mpr begins
      exact .plain (.name word) begins nofun
        (cuts_of_operandToken? token rfl fun _ => rfl) rfl (runs_primary_name begins)
  | @parentheses text inner behind rest opened inside closed inductionHypothesis =>
      have closing : skip false behind = ')' :: rest := closed.skip_eq
      have ends : Ends behind := by
        intro operator further same
        rw [closing] at same
        cases operator <;> cases same
      obtain ⟨phrase, pair, last, cuts, read, run, gap⟩ := exists_expr inductionHypothesis ends
      rw [← inside.skip_eq, ← opened.skip_eq] at run
      rw [gap.skip_eq] at closing
      have begins : Token.opening.Begins ('(' :: text) text := rfl
      exact .plain (.parentheses phrase) begins nofun
        (cuts.parentheses opened closed) read (runs_primary_parentheses run closing)
  | minus sign gap operand inductionHypothesis =>
      exact inductionHypothesis.minus sign gap operand.skip_eq
  | single term inductionHypothesis => exact inductionHypothesis.single
  | operation operator term before after others leftHypothesis rightHypothesis =>
      exact leftHypothesis.operation operator before after others.skip_eq rightHypothesis

/-! ### What is found can be derived -/

theorem length_skip_le (text : List Char) : (skip false text).length ≤ text.length :=
  length_le_of_gap (gap_skip false text)

theorem length_lt_of_skip {c : Char} (begins : skip false text = c :: rest) :
    rest.length < text.length := by
  have le := length_skip_le text
  rw [begins] at le
  exact le

theorem Derives.length_le {part : Part} (derives : Derives part text rest) :
    rest.length ≤ text.length := by
  induction derives with
  | number | name => simp
  | parentheses opened _ closed inductionHypothesis =>
      have first := length_le_of_gap opened
      have last := length_le_of_gap closed
      simp only [List.length_cons] at last ⊢
      omega
  | minus _ gap _ inductionHypothesis =>
      have first := length_le_of_gap gap
      rw [List.length_cons]
      omega
  | single _ inductionHypothesis => exact inductionHypothesis
  | operation _ _ before after _ leftHypothesis rightHypothesis =>
      have first := length_le_of_gap before
      have last := length_le_of_gap after
      rw [List.length_cons] at first
      omega

def Part.peg : Part → Peg
  | .term => .rule .term
  | .expression => .rule .expr

/-- Looking for the part comes to an end, and what is found can be derived. -/
def Part.Decided (whole : List Char) (part : Part) (text : List Char) : Prop :=
  Runs whole false part.peg text none ∨ ∃ pairs behind rest,
    Runs whole false part.peg text (some (pairs, behind)) ∧ Derives part text rest ∧
      Gap rest behind

/-- Expressions are decided in all shorter texts. -/
def DecidedBelow (whole : List Char) (length : Nat) : Prop :=
  ∀ text : List Char, text.length < length → Part.expression.Decided whole (skip false text)

theorem DecidedBelow.mono {length other : Nat} (below : DecidedBelow whole other)
    (le : length ≤ other) : DecidedBelow whole length :=
  fun text shorter => below text (Nat.lt_of_lt_of_le shorter le)

/-- Looking for an operand without minuses comes to an end. -/
def PrimaryDecided (whole text : List Char) : Prop :=
  Runs whole false (.rule .primary) text none ∨ ∃ pairs rest,
    Runs whole false (.rule .primary) text (some (pairs, rest)) ∧ Derives .term text rest

theorem parentheses_decided {inner : List Char}
    (decided : Part.expression.Decided whole (skip false inner)) :
    PrimaryDecided whole ('(' :: inner) := by
  have opening : Runs whole false (.letter '(') _ _ := runs_letter '(' inner
  rcases decided with missing | ⟨pairs, behind, rest, run, derives, gap⟩
  · exact .inl (runs_primary_opening (.notSecond opening (.notFirst missing)))
  · by_cases closed : ∃ further, skip false behind = ')' :: further
    · obtain ⟨further, closed⟩ := closed
      have behind := gap.trans (gap_skip false behind)
      rw [closed] at behind
      exact .inr ⟨pairs, further, runs_primary_parentheses run closed,
        .parentheses (gap_skip false inner) derives behind⟩
    · exact .inl (runs_primary_opening (.notSecond opening
        (.notSecond run (not_runs_letter (not_exists.mp closed)))))

theorem primary_decided (below : DecidedBelow whole text.length) : PrimaryDecided whole text := by
  cases found : operandToken? text with
  | none =>
      have nothing {rule : Rule} (lexes : Lexes rule) :
          Runs whole false (.rule rule) text none := by
        refine lexes.missing fun token tail begins => ?_
        rw [operandToken?_eq_some_iff.mpr begins] at found
        cases found
      refine .inl (not_runs_primary (nothing lexes_number) (nothing lexes_identifier) ?_)
      rintro further rfl
      cases found
  | some first =>
      obtain ⟨token, rest⟩ := first
      have begins := operandToken?_eq_some_iff.mp found
      cases token with
      | number digits =>
          have run : Runs whole false (.rule .primary) text _ := runs_primary_number begins
          obtain ⟨rfl, longest⟩ := begins
          exact .inr ⟨_, rest, run, .number longest⟩
      | name word =>
          have run : Runs whole false (.rule .primary) text _ := runs_primary_name begins
          obtain ⟨rfl, longest⟩ := begins
          exact .inr ⟨_, rest, run, .name longest⟩
      | negation =>
          refine .inl (not_runs_primary
            (lexes_number.missing_of_begins begins nofun)
            (lexes_identifier.missing_of_begins begins nofun) ?_)
          rintro further rfl
          cases begins.1
      | opening =>
          cases begins
          exact parentheses_decided (below rest (Nat.lt_succ_self _))
      | closing | infixed => cases begins

theorem signs_decided (whole before : List Char) : ∃ signs middle,
    Runs whole false (.further (.rule .neg)) before (some (signs, middle)) ∧
      middle.length ≤ before.length ∧
      ∀ rest, Derives .term (skip false middle) rest → Derives .term (skip false before) rest := by
  by_cases signed : ∃ behind, Token.negation.Begins (skip false before) behind
  · obtain ⟨behind, begins⟩ := signed
    obtain ⟨same, sign⟩ := begins
    have less := length_lt_of_skip same
    obtain ⟨signs, middle, further, le, derives⟩ := signs_decided whole behind
    refine ⟨_, middle, .further (lexes_neg.found .negation rfl ⟨same, sign⟩) further, by omega,
      fun rest derived => ?_⟩
    rw [same]
    exact .minus sign (gap_skip false behind) (derives rest derived)
  · refine ⟨[], before, .notFurther (lexes_neg.missing ?_), Nat.le_refl _,
      fun _ derived => derived⟩
    intro token behind begins belongs
    cases token with
    | negation => exact signed ⟨behind, begins⟩
    | _ => cases belongs
termination_by before.length

theorem term_decided (solid : skip false text = text) (below : DecidedBelow whole text.length) :
    Part.term.Decided whole text := by
  obtain ⟨signs, middle, further, shorter, derives⟩ := signs_decided whole text
  obtain ⟨other, many, gap⟩ := further.many_of_further
  rw [solid] at many derives
  have le : (skip false other).length ≤ text.length := by
    rw [← gap.skip_eq]
    exact (length_skip_le middle).trans shorter
  rcases primary_decided (below.mono le) with missing | ⟨pairs, rest, run, derived⟩
  · exact .inl (.silent rfl (.notSecond many missing))
  · rw [← gap.skip_eq] at derived
    exact .inr ⟨_, rest, rest, runs_term many run, derives rest derived, gap_refl rest⟩

/-- Looking for operators and terms behind a term comes to an end, and what is found goes on
with the term to an expression. -/
def OperationsDecided (whole behind : List Char) : Prop :=
  ∃ others last, Runs whole false (.further (.rule .infixed >> .rule .term)) behind
      (some (others, last)) ∧
    ∀ text rest, Derives .term text rest → Gap rest behind →
      ∃ final, Derives .expression text final ∧ Gap final last

theorem operations_decided {behind : List Char} (below : DecidedBelow whole behind.length) :
    OperationsDecided whole behind := by
  have ended (missing : Runs whole false (.rule .infixed >> .rule .term) (skip false behind) none) :
      OperationsDecided whole behind :=
    ⟨[], behind, .notFurther missing, fun _ rest derives gap => ⟨rest, .single derives, gap⟩⟩
  by_cases symbol : ∃ operator : Operator, ∃ further, skip false behind = operator.symbol :: further
  · obtain ⟨operator, further, symbol⟩ := symbol
    have infixed : Runs whole false (.rule .infixed) _ _ := runs_infixed operator further
    have operation := gap_skip false behind
    have less := length_lt_of_skip symbol
    have le := length_skip_le further
    rw [← symbol] at infixed
    rw [symbol] at operation
    -- An operator is taken only together with the term behind it.
    rcases term_decided (skip_skip false further) (below.mono (by omega)) with
      missing | ⟨pairs, middle, tail, run, derives, gap⟩
    · exact ended (.notSecond infixed missing)
    · have shorter : middle.length < behind.length := by
        have first := derives.length_le
        have second := length_le_of_gap gap
        omega
      obtain ⟨others, last, more, derivesAll⟩ :=
        operations_decided (below.mono shorter.le)
      refine ⟨_, last, .further (.sequence infixed run) more, fun text rest left before => ?_⟩
      obtain ⟨final, right, ending⟩ := derivesAll _ tail derives gap
      exact ⟨final, .operation operator left (before.trans operation) (gap_skip false further) right,
        ending⟩
  · refine ended (.notFirst (not_runs_infixed fun operator further same => ?_))
    exact symbol ⟨operator, further, same⟩
termination_by behind.length

theorem expression_decided (whole : List Char) {text : List Char}
    (solid : skip false text = text) : Part.expression.Decided whole text := by
  have below : DecidedBelow whole text.length := fun shorter less =>
    expression_decided whole (skip_skip false shorter)
  rcases term_decided solid below with missing | ⟨pairs, behind, rest, run, derives, gap⟩
  · exact .inl (.notRule (.notFirst missing))
  · have le := (length_le_of_gap gap).trans derives.length_le
    obtain ⟨others, last, further, derivesAll⟩ := operations_decided (below.mono le)
    obtain ⟨other, many, behindLast⟩ := further.many_of_further
    obtain ⟨final, derived, ending⟩ := derivesAll text rest derives gap
    exact .inr ⟨_, other, final, .normal rfl (.sequence run many), derived,
      ending.trans behindLast⟩
termination_by text.length
decreasing_by exact Nat.lt_of_le_of_lt (length_skip_le shorter) less

/-! ### Whole texts -/

/-- Where a text can be derived, the grammar finds one expression up to the end, and what its
pairs are climbed to is what is read. -/
theorem Calculation.found {text : List Char} (calculation : Calculation text) (kind : Kind) :
    ∃ pair : Pair, Runs text false (.rule .calculation) text
        (some ([pair, ⟨.endOfInput, [], []⟩], [])) ∧
      pair.symbol? kind = some (.operand (Expr.read kind text)) := by
  obtain ⟨start, rest, first, derives, last⟩ := calculation
  have ended : skip false rest = [] := last.skip_eq
  have ends : Ends rest := by
    intro operator further same
    rw [ended] at same
    cases same
  obtain ⟨phrase, pair, behind, cuts, read, run, gap⟩ :=
    exists_expr (derives.found text kind) ends
  have phrase_read := Phrase.read_iff.mpr (tokenize_of_cuts first cuts last)
  have begins : skip false text = start := first.skip_eq.trans derives.skip_eq
  have finish : Runs text false (.rule .endOfInput) (skip false behind)
      (some ([⟨.endOfInput, [], []⟩], [])) := by
    have inside : Runs text false Rule.endOfInput.body [] (some ([], [])) := .finish
    rw [← gap.skip_eq, ended]
    exact .normal rfl inside
  rw [← begins] at run
  refine ⟨pair, .silent rfl (.sequence .start (run.sequence finish)), ?_⟩
  rw [read, Expr.read, phrase_read]
  rfl

theorem not_runs_calculation {text : List Char} (underivable : ¬Calculation text) :
    Runs text false (.rule .calculation) text none := by
  apply Runs.silent rfl
  rcases expression_decided text (skip_skip false text) with
    missing | ⟨pairs, behind, rest, run, derives, gap⟩
  · exact .notSecond .start (.notFirst missing)
  · refine .notSecond .start (.notSecond run (.notRule (.notFinish fun ended => ?_)))
    have last := gap.trans (gap_skip false behind)
    rw [ended] at last
    exact underivable ⟨_, rest, gap_skip false text, derives, last⟩

/-- The grammar has one outcome for a text.  It fails if the text cannot be derived, and
otherwise finds one expression up to the end, whose pairs are climbed to what is read. -/
theorem grammar_conforms (kind : Kind) (text : List Char) : ∃ outcome,
    (∀ other, Runs text false (.rule .calculation) text other ↔ other = outcome) ∧
      (outcome = none ↔ ¬Calculation text) ∧
      ∀ pairs rest, outcome = some (pairs, rest) → rest = [] ∧
        ∃ pair, pairs = [pair, ⟨.endOfInput, [], []⟩] ∧
          pair.symbol? kind = some (.operand (Expr.read kind text)) := by
  have only {outcome : Outcome} (run : Runs text false (.rule .calculation) text outcome)
      (other : Outcome) : Runs text false (.rule .calculation) text other ↔ other = outcome :=
    ⟨fun again => again.unique run, fun same => same ▸ run⟩
  by_cases calculation : Calculation text
  · obtain ⟨pair, run, read⟩ := calculation.found kind
    refine ⟨_, only run, by simp [calculation], fun pairs rest same => ?_⟩
    cases same
    exact ⟨rfl, pair, rfl, read⟩
  · exact ⟨none, only (not_runs_calculation calculation), by simp [calculation],
      fun pairs rest same => nomatch same⟩

end Worksheet.Grammar
