import Worksheet.Proofs.Expr.Evaluation
import Worksheet.Proofs.Grammar.Derivation

/-!
# A minus in front of an operand

Directly before the digits of a number a minus belongs to the literal.  Anywhere else it is
a negation, which a number takes up and which becomes a factor of anything else.  All the
same, what is read is the negated operand, and its value is the negated value.
-/

namespace Worksheet

open Decimal Grammar Text

/-! ### Literals -/

theorem splitSign_of_startsNumber {digits : List Char} (starts : startsNumber digits = true) :
    splitSign digits = (false, digits) := by
  unfold splitSign
  split
  next => cases starts
  next => cases starts
  next => rfl

theorem readInteger?_minus {digits : List Char} (starts : startsNumber digits = true)
    {value : Int32} (found : readInteger? digits = some value) :
    readInteger? ('-' :: digits) = some (-value) := by
  simp only [readInteger?, splitSign_of_startsNumber starts, Option.bind_eq_bind,
    Option.bind_eq_some_iff, Option.ite_none_right_eq_some] at found
  obtain ⟨size, whole, ⟨-, high⟩, same⟩ := found
  cases same
  have range : size ≤ 2147483648 := by
    simp only [Bool.false_eq_true, if_false] at high
    omega
  simp [readInteger?, splitSign, whole, range, Int32.ofInt_neg]

theorem readFloating?_minus {F : Type} [Floating F] {digits : List Char}
    (starts : startsNumber digits = true) {value : F}
    (found : readFloating? digits = some value) : readFloating? ('-' :: digits) = some (-value) := by
  rw [readFloating?, splitSign_of_startsNumber starts] at found
  obtain ⟨reading, decimal, rfl⟩ := Option.map_eq_some_iff.mp found
  exact Option.map_eq_some_iff.mpr ⟨reading, decimal, rfl⟩

theorem Kind.literal?_minus {kind : Kind} {digits : List Char}
    (starts : startsNumber digits = true) {value : Number}
    (found : kind.literal? digits = some value) :
    kind.literal? ('-' :: digits) = some value.negate := by
  obtain ⟨taken, finite⟩ := Option.filter_eq_some_iff.mp found
  refine Option.filter_eq_some_iff.mpr ⟨?_, Number.isFinite_negate finite⟩
  cases kind with
  | int =>
      obtain ⟨whole, integer, rfl⟩ := Option.map_eq_some_iff.mp taken
      exact Option.map_eq_some_iff.mpr ⟨_, readInteger?_minus starts integer, rfl⟩
  | float | double =>
      obtain ⟨whole, read, rfl⟩ := Option.map_eq_some_iff.mp taken
      exact Option.map_eq_some_iff.mpr ⟨_, readFloating?_minus starts read, rfl⟩

/-! ### Tokens and phrases -/

namespace Grammar

variable {text : List Char}

theorem Phrase.read_iff {phrase : Phrase} :
    Phrase.read text = .ok phrase ↔ tokenize text = .ok phrase.tokens := by
  refine ⟨tokenize_of_read, fun scanned => ?_⟩
  obtain ⟨other, read⟩ := (calculation_of_tokenize scanned).read
  have same : phrase.tokens = other.tokens :=
    Except.ok.inj (scanned.symm.trans (tokenize_of_read read))
  have again := ofTokens?_tokens phrase
  rw [same, ofTokens?_tokens] at again
  cases again
  exact read

/-- Where an operand may begin, it does not matter what came before. -/
theorem scan_of_ne_after {place other : Place} {depth : Nat} {tokens : List Token}
    (before : place ≠ .after) (otherBefore : other ≠ .after)
    (scanned : scan place depth text = .ok tokens) : scan other depth text = .ok tokens := by
  obtain ⟨-, after, -⟩ | ⟨token, others, start, rest, rfl, gap, found, further⟩ :=
    scan_cases scanned
  · exact absurd after before
  · rw [token?_of_ne_after before, ← token?_of_ne_after otherBefore] at found
    rw [gap.scan, scan_of_token? found, further]
    rfl

theorem eq_of_gap_of_startsNumber {start : List Char} (gap : Gap text start)
    (starts : startsNumber text = true) : text = start := by
  obtain ⟨layout, all, rfl⟩ := gap
  cases layout with
  | nil => rfl
  | cons c layout =>
      have blank := all c List.mem_cons_self
      simp only [isLayout, Bool.or_eq_true, decide_eq_true_eq] at blank
      rcases blank with ((rfl | rfl) | rfl) | rfl <;> cases starts

/-- With a minus in front, the first token is a number with the minus, or the minus comes
before all tokens. -/
theorem tokenize_minus {tokens : List Token} (scanned : tokenize text = .ok tokens) :
    (∃ digits others, startsNumber digits = true ∧ tokens = .number digits :: others ∧
        tokenize ('-' :: text) = .ok (.number ('-' :: digits) :: others)) ∨
      tokenize ('-' :: text) = .ok (.negation :: tokens) := by
  cases starts : startsNumber text with
  | true =>
      obtain ⟨-, after, -⟩ | ⟨token, others, start, rest, rfl, gap, found, further⟩ :=
        scan_cases scanned
      · cases after
      · cases eq_of_gap_of_startsNumber gap starts
        rw [token?, operandToken?_of_startsNumber starts] at found
        obtain ⟨⟨digits, behind⟩, taken, same⟩ := Option.map_eq_some_iff.mp found
        cases same
        have signed : token? .start ('-' :: text) = some (.number ('-' :: digits), rest) :=
          operandToken?_negative starts taken
        have numeral := (unsigned?_eq_some_iff.mp taken).2.formed.startsNumber []
        rw [List.append_nil] at numeral
        refine .inl ⟨digits, others, numeral, rfl, ?_⟩
        rw [tokenize, scan_of_token? signed]
        change (scan .after 0 rest).map _ = _
        rw [show scan .after 0 rest = .ok others from further]
        rfl
  | false =>
      have found : token? .start ('-' :: text) = some (.negation, text) := by
        simp [token?, operandToken?, starts]
      have behind : scan .operand 0 text = .ok tokens :=
        scan_of_ne_after (by simp) (by simp) scanned
      refine .inr ?_
      rw [tokenize, scan_of_token? found]
      change (scan .operand 0 text).map _ = _
      rw [behind]
      rfl

/-- A minus in front of a single operand belongs to the number or is one more negation. -/
theorem Phrase.read_minus {minuses : Nat} {primary : Primary}
    (read : Phrase.read text = .ok (.last minuses primary)) :
    (∃ digits, startsNumber digits = true ∧ minuses = 0 ∧ primary = .number digits ∧
        Phrase.read ('-' :: text) = .ok (.last 0 (.number ('-' :: digits)))) ∨
      Phrase.read ('-' :: text) = .ok (.last (minuses + 1) primary) := by
  simp only [Phrase.read_iff] at read ⊢
  rcases tokenize_minus read with ⟨digits, others, starts, same, scanned⟩ | scanned
  · left
    cases minuses with
    | succ minuses => cases same
    | zero =>
        cases primary with
        | number text =>
            cases same
            exact ⟨digits, starts, rfl, rfl, scanned⟩
        | name text => cases same
        | parentheses content => cases same
  · exact .inr scanned

end Grammar

/-! ### Expressions -/

namespace Expr

theorem read_minus {kind : Kind} {text : List Char} {minuses : Nat} {primary : Primary}
    (single : Phrase.read text = .ok (.last minuses primary)) {operand : Expr}
    (read : Expr.read kind text = .ok operand) :
    Expr.read kind ('-' :: text) = Expr.negated kind operand := by
  rw [Expr.read, single] at read
  change Expr.minuses kind minuses (primary.expr kind) = .ok operand at read
  rcases Phrase.read_minus single with ⟨digits, starts, rfl, rfl, again⟩ | again
  · rw [Expr.minuses, Primary.expr] at read
    split at read
    next value found =>
      cases read
      rw [Expr.read, again]
      change Primary.expr kind (.number ('-' :: digits)) = _
      rw [Primary.expr, Kind.literal?_minus starts found]
      rfl
    next => cases read
  · rw [Expr.read, again]
    change (Expr.minuses kind minuses (primary.expr kind)).bind (Expr.negated kind) = _
    rw [read]
    rfl

theorem exists_negated (kind : Kind) {operand : Expr} (free : operand.isAssignment = false) :
    ∃ negative, Expr.negated kind operand = .ok negative := by
  cases operand with
  | binary operator left right =>
      rw [isAssignment_binary] at free
      exact ⟨_, if_neg (of_decide_eq_false free)⟩
  | _ => exact ⟨_, rfl⟩

theorem isPlain_negated {kind : Kind} {operand negative : Expr}
    (read : Expr.negated kind operand = .ok negative) (plain : operand.isPlain = true) :
    negative.isPlain = true := by
  cases operand with
  | binary operator left right =>
      rw [Expr.negated] at read
      split at read
      next => cases read
      next =>
        cases read
        simpa [isPlain] using plain
  | _ =>
      cases read
      rfl

theorem evaluate_negated {operand negative : Expr}
    (read : Expr.negated .int operand = .ok negative) {table : Variables}
    (whole : ∀ value, operand.evaluate table = .ok value → value.kind = .int) :
    negative.evaluate table = (operand.evaluate table).map Number.negate := by
  have factor : (Expr.binary .multiply (.number (.int (-1))) operand).evaluate table =
      (operand.evaluate table).map Number.negate := by
    rw [evaluate, evaluate]
    cases done : operand.evaluate table with
    | error fault => rfl
    | ok value =>
        cases value with
        | int value =>
            change (Except.ok (.int (-1 * value)) : Except Fault Number) = .ok (.int (-value))
            rw [Int32.neg_mul, Int32.one_mul]
        | _ => cases whole _ done
  cases operand with
  | number value =>
      cases read
      rfl
  | «variable» name =>
      cases read
      exact factor
  | binary operator left right =>
      rw [Expr.negated] at read
      split at read
      next => cases read
      next =>
        cases read
        exact factor

end Expr

end Worksheet
