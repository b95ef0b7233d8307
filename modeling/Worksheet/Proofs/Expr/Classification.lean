import Worksheet.Proofs.Expr.Acceptance
import Worksheet.Proofs.Grammar.Passing

/-!
# Errors of form

What is wrong with a text that is no expression: an operand is missing just if one at the end
would make it an expression, and parentheses are told to be out of balance just if they are.
Any other error names a place in the text up to which an expression begins with it.
-/

namespace Worksheet

open Grammar Text

/-! ### Parentheses in balance -/

namespace Grammar

/-- Parentheses are closed as often as they are opened, and never more often up to a place. -/
def Balanced (text : List Char) : Prop :=
  text.count '(' = text.count ')' ∧ ∀ before, before <+: text → before.count ')' ≤ before.count '('

theorem balanced_eq_true_iff {depth : Nat} {text : List Char} :
    balanced depth text = true ↔ depth + text.count '(' = text.count ')' ∧
      ∀ before, before <+: text → before.count ')' ≤ depth + before.count '(' := by
  induction text generalizing depth with
  | nil => simp [balanced]
  | cons c text inductionHypothesis =>
      have prefixes (holds : List Char → Prop) (empty : holds []) :
          (∀ before, before <+: c :: text → holds before) ↔
            ∀ before, before <+: text → holds (c :: before) := by
        constructor
        · exact fun all before inside => all _ ((List.prefix_cons_inj c).mpr inside)
        · intro all before inside
          rcases List.prefix_cons_iff.mp inside with rfl | ⟨rest, rfl, within⟩
          · exact empty
          · exact all rest within
      rw [balanced, prefixes _ (by simp)]
      split
      next opening =>
        subst opening
        rw [inductionHypothesis]
        simp [Nat.add_assoc, Nat.add_comm 1]
      next =>
        split
        next closing =>
          subst closing
          cases depth with
          | zero => simpa using fun _ => ⟨[], by simp⟩
          | succ depth =>
              simp [inductionHypothesis, Nat.add_right_comm depth 1]
        next =>
          rw [inductionHypothesis]
          simp [*]

theorem balanced_iff {text : List Char} : balanced 0 text = true ↔ Balanced text := by
  rw [balanced_eq_true_iff, Balanced]
  simp only [Nat.zero_add]

/-! ### The end of a text -/

theorem trimEnd_append (text : List Char) :
    ∃ blanks, text = trimEnd text ++ blanks ∧ allBlank blanks = true ∧
      ∀ left right, trimEnd text = left ++ right → right ≠ [] → allBlank right = false := by
  refine ⟨text.rtakeWhile isBlank, (List.rdropWhile_append_rtakeWhile).symm, ?_, ?_⟩
  · exact List.all_eq_true.mpr fun c member => List.mem_rtakeWhile_imp member
  · intro left right same filled
    have whole : text.rdropWhile isBlank = left ++ right := same
    have solid := List.rdropWhile_last_not isBlank text (by simp [whole, filled])
    simp only [whole, List.getLast_append_of_ne_nil _ filled] at solid
    exact Bool.eq_false_iff.mpr fun blank =>
      solid (List.all_eq_true.mp blank _ (List.getLast_mem filled))

theorem head_of_allBlank {text : List Char} (blank : allBlank text = true) :
    ∀ c ∈ text.head?, isBlank c = true :=
  fun _ first => List.all_eq_true.mp blank _ (List.mem_of_mem_head? first)

theorem token?_of_allBlank {text : List Char} (blank : allBlank text = true) (place : Place) :
    token? place text = none := by
  cases found : token? place text with
  | none => rfl
  | some result =>
      obtain ⟨token, rest⟩ := result
      obtain ⟨whole, filled, marks⟩ := spelling_of_token? found
      obtain ⟨c, others, spelled⟩ := List.exists_cons_of_ne_nil filled
      have solid := (marks c (by simp [spelled])).isBlank
      rw [head_of_allBlank blank c (by simp [whole, spelled])] at solid
      cases solid

theorem allBlank_of_gap {text rest : List Char} (gap : Gap text rest) :
    allBlank text = allBlank rest := by
  obtain ⟨layout, all, rfl⟩ := gap
  have blank : layout.all isBlank = true :=
    List.all_eq_true.mpr fun c member => isBlank_of_isLayout (all c member)
  rw [allBlank, List.all_append, blank, Bool.true_and, allBlank]

theorem Passes.of_allBlank {place later : Place} {depth level : Nat} {text rest : List Char}
    (passes : Passes place depth text later level rest) (blank : allBlank text = true) :
    later = place ∧ level = depth := by
  cases passes with
  | here => exact ⟨rfl, rfl⟩
  | past gap found =>
      rw [allBlank_of_gap gap] at blank
      cases (token?_of_allBlank blank place).symm.trans found

theorem scan_of_allBlank {place : Place} (before : place ≠ .after) (depth : Nat) {text : List Char}
    (blank : allBlank text = true) :
    ∃ rest, scan place depth text = .error ⟨place, depth, rest⟩ ∧ allBlank rest = true := by
  rcases scan_steps place depth text with ⟨after, -⟩ | ⟨rest, gap, -, done⟩ |
    ⟨rest, token, tail, gap, found, -⟩
  · exact absurd after before
  · exact ⟨rest, done, by rwa [← allBlank_of_gap gap]⟩
  · rw [allBlank_of_gap gap] at blank
    cases (token?_of_allBlank blank place).symm.trans found

theorem scan_of_token?_eq_none {place : Place} {text : List Char}
    (missing : token? place text = none) (filled : text ≠ [])
    (solid : ∀ c ∈ text.head?, isLayout c = false) (depth : Nat) :
    scan place depth text = .error ⟨place, depth, text⟩ := by
  rw [scan, Decimal.dropWhile_of_head solid, if_neg fun ended => filled ended.2]
  split
  next => rfl
  next found => cases missing.symm.trans found

theorem not_passes_operand {depth level : Nat} :
    ¬Passes .after depth [' ', 'x'] .after level [] := by
  intro passes
  obtain ⟨tokens, scanned⟩ := passes.scan
  have stuck : scan .after depth [' ', 'x'] = .error ⟨.after, depth, ['x']⟩ := by
    rw [(gap_space _).scan]
    exact scan_of_token?_eq_none rfl (List.cons_ne_nil _ _) (by simp [isLayout]) depth
  rw [stuck, scan_after_nil] at scanned
  cases scanned

theorem level_eq_zero {level : Nat} {text : List Char} (blank : allBlank text = true)
    (closed : balanced level text = true) : level = 0 := by
  have flat (c : Char) (member : c ∈ text) : c ≠ '(' ∧ c ≠ ')' := by
    have white := List.all_eq_true.mp blank c member
    constructor <;> rintro rfl <;> cases white
  have ended := balanced_append flat level []
  rw [List.append_nil, closed, balanced, eq_comm, decide_eq_true_eq] at ended
  exact ended

/-! ### Reading phrases -/

/-- A text that is filled and in balance is a phrase unless the scanner gets stuck. -/
theorem Phrase.read_cases {text : List Char} (solid : allBlank text = false)
    (closed : balanced 0 text = true) :
    (∃ phrase, Phrase.read text = .ok phrase) ∨
      ∃ mismatch, tokenize text = .error mismatch ∧
        Phrase.read text = .error (mismatch.error text) := by
  cases scanned : tokenize text with
  | ok tokens =>
      obtain ⟨phrase, found⟩ := exists_ofTokens? scanned closed
      exact .inl ⟨phrase, by simp [Phrase.read, solid, closed, scanned, found]⟩
  | error mismatch => exact .inr ⟨mismatch, rfl, by simp [Phrase.read, solid, closed, scanned]⟩

theorem Mismatch.error_eq_missingOperand_iff {text : List Char} {mismatch : Mismatch} :
    mismatch.error text = .missingOperand ↔
      mismatch.place = .operand ∧ allBlank mismatch.rest = true := by
  rw [Mismatch.error]
  cases mismatch.place with
  | operand => cases allBlank mismatch.rest <;> simp
  | _ => simp

theorem Phrase.read_ne_unbalancedParentheses {text : List Char} (solid : allBlank text = false)
    (closed : balanced 0 text = true) : Phrase.read text ≠ .error .unbalancedParentheses := by
  intro read
  obtain ⟨phrase, done⟩ | ⟨mismatch, -, done⟩ := Phrase.read_cases solid closed
  · cases read.symm.trans done
  · have refused := Except.error.inj (done.symm.trans read)
    rw [Mismatch.error] at refused
    split at refused
    next => cases refused
    next => split at refused <;> cases refused
    next => cases refused

/-- An operand is missing where one at the end would make an expression of the text. -/
theorem Phrase.read_eq_missingOperand_iff {text : List Char} (solid : allBlank text = false)
    (closed : balanced 0 text = true) :
    Phrase.read text = .error .missingOperand ↔ Calculation (trimEnd text ++ [' ', 'x']) := by
  obtain ⟨blanks, whole, blank, last⟩ := trimEnd_append text
  have border := head_of_allBlank blank
  constructor
  · intro read
    obtain ⟨phrase, done⟩ | ⟨mismatch, scanned, done⟩ := Phrase.read_cases solid closed
    · cases read.symm.trans done
    obtain ⟨operand, empty⟩ :=
      Mismatch.error_eq_missingOperand_iff.mp (Except.error.inj (done.symm.trans read))
    obtain ⟨tokens, level, finished, -⟩ | ⟨other, stuck, passes⟩ :=
      passes_of_scan .start 0 text closed
    · cases scanned.symm.trans finished
    cases scanned.symm.trans stuck
    -- The rest is blank, so the scanner has come to the blanks at the end of the text.
    obtain ⟨left, filled, rest⟩ | ⟨middle, between, before, after⟩ := passes.split whole border
    · obtain ⟨earlier, text_eq, -⟩ := passes.exists_before
      have inside : trimEnd text = earlier ++ left := by
        apply (List.append_left_inj blanks).mp
        rw [← whole, List.append_assoc, ← rest, ← text_eq]
      rw [rest, allBlank, List.all_append] at empty
      have solid := last earlier left inside filled
      rw [allBlank] at solid
      rw [solid] at empty
      cases empty
    · obtain ⟨rfl, rfl⟩ := after.of_allBlank blank
      rw [operand] at before
      obtain ⟨earlier, same, -, calculation⟩ := before.exists_calculation
      have level := level_eq_zero blank (before.balanced.symm.trans closed)
      rw [level] at calculation
      rwa [List.append_cancel_right (whole.symm.trans same)]
  · intro calculation
    obtain ⟨phrase, read⟩ := calculation.read
    have scanned := Phrase.tokenize_of_read read
    obtain ⟨tokens, level, -, passes⟩ | ⟨mismatch, stuck, -⟩ :=
      passes_of_scan .start 0 _ calculation.filled.2
    swap
    · cases scanned.symm.trans stuck
    obtain ⟨left, -, nothing⟩ | ⟨middle, between, before, after⟩ :=
      passes.split rfl fun c first => by
        cases first
        decide
    · simp at nothing
    obtain ⟨earlier, same, -, again⟩ := before.exists_before
    have replaced := again blanks fun c first => .inl (border c first)
    rw [← List.append_cancel_right same, ← whole] at replaced
    have level := level_eq_zero blank (replaced.balanced.symm.trans closed)
    have operand : middle = .operand := by
      cases middle with
      | operand => rfl
      | after => exact absurd after not_passes_operand
      | start =>
          obtain opened | ⟨-, -, gap⟩ := replaced.zero_lt_or_gap rfl
          · omega
          · rw [allBlank_of_gap gap, blank] at solid
            cases solid
    subst operand
    have operandBefore : Place.operand ≠ .after := by simp
    obtain ⟨rest, stuck, empty⟩ := scan_of_allBlank operandBefore between blank
    obtain ⟨tokens, ended⟩ := replaced.scan
    rw [stuck] at ended
    obtain ⟨phrase, done⟩ | ⟨mismatch, scanned, done⟩ := Phrase.read_cases solid closed
    · cases (Phrase.tokenize_of_read done).symm.trans ended
    · cases scanned.symm.trans ended
      rw [done, Mismatch.error_eq_missingOperand_iff.mpr ⟨rfl, empty⟩]

theorem utf8ByteSize_of_marks {text : List Char}
    (known : ∀ c ∈ text, isLayout c = true ∨ IsMark c) :
    (String.ofList text).utf8ByteSize = text.length := by
  rw [String.utf8ByteSize_ofList]
  induction text with
  | nil => rfl
  | cons c rest inductionHypothesis =>
      obtain ⟨here, later⟩ := List.forall_mem_cons.mp known
      have single : c.utf8Size = 1 := by
        rcases here with layout | mark
        · simp only [isLayout, Bool.or_eq_true, decide_eq_true_eq] at layout
          rcases layout with ((rfl | rfl) | rfl) | rfl <;> rfl
        · exact mark.utf8Size
      rw [String.utf8Len_cons, single, inductionHypothesis later, List.length_cons]

theorem Mismatch.position_of_error {text : List Char} {mismatch : Mismatch} {expected : Expected}
    {position : Nat} (named : mismatch.error text = .unexpected expected position) :
    position = text.length - mismatch.rest.length + 1 := by
  rw [Mismatch.error] at named
  split at named
  next =>
    cases named
    rfl
  next =>
    split at named
    next => cases named
    next =>
      cases named
      rfl
  next =>
    cases named
    rfl

/-- What stands before the place that an error names begins an expression. -/
theorem Phrase.position_of_read {text : List Char} {expected : Expected} {position : Nat}
    (read : Phrase.read text = .error (.unexpected expected position)) :
    ∃ before after more, text = before ++ after ∧
      (String.ofList before).utf8ByteSize + 1 = position ∧ Calculation (before ++ more) := by
  have formal : allBlank text = false ∧ balanced 0 text = true := by
    cases blank : allBlank text with
    | true => simp [Phrase.read, blank] at read
    | false =>
        cases closed : balanced 0 text with
        | true => exact ⟨rfl, rfl⟩
        | false => simp [Phrase.read, blank, closed] at read
  obtain ⟨phrase, done⟩ | ⟨mismatch, scanned, done⟩ := Phrase.read_cases formal.1 formal.2
  · cases read.symm.trans done
  obtain ⟨tokens, level, finished, -⟩ | ⟨other, stuck, passes⟩ :=
    passes_of_scan .start 0 text formal.2
  · cases scanned.symm.trans finished
  cases scanned.symm.trans stuck
  obtain ⟨before, whole, known, calculation⟩ := passes.exists_calculation
  refine ⟨before, mismatch.rest, _, whole, ?_, calculation⟩
  rw [Mismatch.position_of_error (Except.error.inj (done.symm.trans read)),
    utf8ByteSize_of_marks known, whole, List.length_append, Nat.add_sub_cancel]

end Grammar

/-! ### The answer to a segment -/

theorem Expr.read_eq_error_iff {kind : Kind} {text : List Char} {error : ReadError}
    (formal : error.isFormal = true) :
    Expr.read kind text = .error error ↔ Phrase.read text = .error error := by
  cases read : Phrase.read text with
  | error other => simp [Expr.read, read, Except.bind]
  | ok phrase =>
      simp only [reduceCtorEq, iff_false]
      intro refused
      have refusal := Expr.sensible_read kind (exists_read_iff.mp ⟨phrase, read⟩) error refused
      cases error <;> first | exact refusal | cases formal

/-- Which error of form a segment has.  One that names a place, counted in bytes from one, names
the end of a text that begins an expression. -/
theorem Dialect.errors_of_form (dialect : Dialect) (table : Variables) (text : List Char) :
    let answer := (dialect.readSegments table [text]).1
    (answer = .error .missingOperand ↔ allBlank text = true ∨
      Balanced text ∧ Calculation (trimEnd text ++ [' ', 'x'])) ∧
    (answer = .error .unbalancedParentheses ↔ allBlank text = false ∧ ¬Balanced text) ∧
    ∀ expected position, answer = .error (.unexpected expected position) →
      1 ≤ position ∧ position ≤ (String.ofList text).utf8ByteSize + 1 ∧
      ∃ before after more, text = before ++ after ∧
        (String.ofList before).utf8ByteSize = position - 1 ∧ Calculation (before ++ more) := by
  intro answer
  have same (error : ReadError) (formal : error.isFormal = true) :
      answer = .error error ↔ Phrase.read text = .error error := by
    have read : Expr.read dialect.kind text = .error error ↔ Phrase.read text = .error error :=
      Expr.read_eq_error_iff formal
    rw [← read]
    have single : answer = (Expr.read dialect.kind text).map fun expr => [expr] :=
      dialect.readSegments_singleton table text
    rw [single]
    cases Expr.read dialect.kind text <;> simp [Except.map]
  refine ⟨?_, ?_, fun expected position refused => ?_⟩
  · rw [same _ rfl, ← balanced_iff]
    cases blank : allBlank text with
    | true => simp [Phrase.read, blank]
    | false =>
        cases closed : balanced 0 text with
        | true => simpa using Phrase.read_eq_missingOperand_iff blank closed
        | false => simp [Phrase.read, blank, closed]
  · rw [same _ rfl, ← balanced_iff]
    cases blank : allBlank text with
    | true => simp [Phrase.read, blank]
    | false =>
        cases closed : balanced 0 text with
        | false => simp [Phrase.read, blank, closed]
        | true => simpa using Phrase.read_ne_unbalancedParentheses blank closed
  · obtain ⟨before, after, more, rfl, rfl, calculation⟩ :=
      Phrase.position_of_read ((same _ rfl).mp refused)
    rw [String.ofList_append, String.utf8ByteSize_append]
    exact ⟨by omega, by omega, before, after, more, rfl, by omega, calculation⟩

/-- The second number of the first text comes too soon, in its eighth byte. -/
example :
    let answers := ["(a + 1 2)", "a * (b -)", "b / ", "a)("].map fun text =>
      (Dialect.standard.readSegments .empty [text.toList]).1
    answers = [.error (.unexpected .operatorInside 8), .error (.unexpected .operand 9),
      .error .missingOperand, .error .unbalancedParentheses] := by
  decide +kernel

end Worksheet
