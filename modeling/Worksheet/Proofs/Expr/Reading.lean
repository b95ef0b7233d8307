import Worksheet.Proofs.Expr.Written
import Worksheet.Proofs.Grammar.Derivation

/-!
# What is read can be written

An expression that has been read assigns at the top only, its names are names, and its
numbers are finite and of the kind that was read.  Such an expression is read back from
its own text.
-/

namespace Worksheet

open Grammar

/-! ### Finite numbers -/

theorem Kind.isFinite_one (kind : Kind) : kind.one.isFinite = true := by
  cases kind <;> rfl

/-! ### Names in the tokens -/

namespace Grammar

def Token.IsNamed : Token → Prop
  | .name text => isName text = true
  | _ => True

theorem isNamed_of_token? {place : Place} {text rest : List Char} {token : Token}
    (found : token? place text = some (token, rest)) : token.IsNamed := by
  by_cases ended : place = .after
  · subst ended
    obtain ⟨rfl, -⟩ | ⟨operator, rfl, -⟩ := operatorToken?_eq_some_iff.mp found <;> trivial
  · rw [token?_of_ne_after ended] at found
    have begins := operandToken?_eq_some_iff.mp found
    cases token with
    | name word => exact begins.2.formed
    | _ => trivial

theorem isNamed_of_scan {place : Place} {depth : Nat} {text : List Char} {tokens : List Token}
    (scanned : scan place depth text = .ok tokens) : ∀ token ∈ tokens, token.IsNamed := by
  induction tokens generalizing place depth text with
  | nil => simp
  | cons token others inductionHypothesis =>
      obtain ⟨start, rest, -, found, further⟩ := exists_of_scan_eq_cons scanned
      exact List.forall_mem_cons.mpr ⟨isNamed_of_token? found, inductionHypothesis further⟩

theorem Phrase.isNamed_of_read {text : List Char} {phrase : Phrase}
    (read : Phrase.read text = .ok phrase) : ∀ token ∈ phrase.tokens, token.IsNamed :=
  isNamed_of_scan (Phrase.tokenize_of_read read)

mutual

theorem Primary.mem_tokens_of_mem_names {kind : Kind} (primary : Primary) {name : String}
    (member : name ∈ primary.names kind) : Token.name name.toList ∈ primary.tokens := by
  match primary with
  | .number text => cases member
  | .name text =>
      rw [Primary.names, List.mem_singleton] at member
      subst member
      simp [Primary.tokens]
  | .parentheses content =>
      have inside := content.mem_tokens_of_mem_names member
      simp [Primary.tokens, inside]

theorem Phrase.mem_tokens_of_mem_names {kind : Kind} (phrase : Phrase) {name : String}
    (member : name ∈ phrase.names kind) : Token.name name.toList ∈ phrase.tokens := by
  match phrase with
  | .last minuses primary =>
      have inside := primary.mem_tokens_of_mem_names member
      simp [Phrase.tokens, inside]
  | .more minuses primary operator rest =>
      rcases List.mem_append.mp member with first | later
      · have inside := primary.mem_tokens_of_mem_names first
        simp [Phrase.tokens, inside]
      · split at later
        next =>
          have inside := rest.mem_tokens_of_mem_names later
          simp [Phrase.tokens, inside]
        next => cases later

end

end Grammar

theorem Expr.isName_of_mem_namesRead {kind : Kind} {text : List Char} {name : String}
    (member : name ∈ Expr.namesRead kind text) : isName name.toList = true := by
  unfold Expr.namesRead at member
  split at member
  next phrase read =>
    exact Phrase.isNamed_of_read read _ (phrase.mem_tokens_of_mem_names member)
  next => cases member

/-! ### Readable expressions -/

/-- All that is known of an expression that has been read. -/
structure Expr.Readable (kind : Kind) (expr : Expr) : Prop where
  lawful : expr.isLawful = true
  isName_names : ∀ name ∈ expr.names, isName name.toList = true
  kind_constants : ∀ value ∈ expr.constants, value.kind = kind
  isFinite_constants : ∀ value ∈ expr.constants, value.isFinite = true

namespace Expr

variable {kind : Kind}

theorem isPlain_of_isLawful {expr : Expr} (lawful : expr.isLawful = true)
    (free : expr.isAssignment = false) : expr.isPlain = true := by
  cases expr with
  | binary operator left right =>
      have other : operator ≠ .assign := by simpa [isAssignment_binary] using free
      simp only [isLawful, Bool.and_eq_true] at lawful
      simp [isPlain, other, lawful]
  | _ => rfl

theorem Readable.number {value : Number} (typed : value.kind = kind)
    (finite : value.isFinite = true) : (Expr.number value).Readable kind :=
  ⟨rfl, by simp [names], by simp [constants, typed], by simp [constants, finite]⟩

theorem Readable.variable {name : String} (named : isName name.toList = true) :
    (Expr.variable name).Readable kind :=
  ⟨rfl, by simp [names, named], by simp [constants], by simp [constants]⟩

theorem Readable.binary {operator : Operator} {left right : Expr} (first : left.Readable kind)
    (second : right.Readable kind) (leftFree : left.isAssignment = false)
    (rightFree : right.isAssignment = false)
    (target : operator = .assign → left.isVariable = true) :
    (Expr.binary operator left right).Readable kind := by
  refine ⟨?_, ?_, ?_, ?_⟩
  · have leftPlain := isPlain_of_isLawful first.lawful leftFree
    have rightPlain := isPlain_of_isLawful second.lawful rightFree
    by_cases assign : operator = .assign
    · simp [isLawful, target assign, leftPlain, rightPlain]
    · simp [isLawful, assign, leftPlain, rightPlain]
  · intro name member
    exact (List.mem_append.mp member).elim (first.isName_names name) (second.isName_names name)
  · intro value member
    exact (List.mem_append.mp member).elim (first.kind_constants value)
      (second.kind_constants value)
  · intro value member
    exact (List.mem_append.mp member).elim (first.isFinite_constants value)
      (second.isFinite_constants value)

theorem Readable.negated {expr negative : Expr} (readable : expr.Readable kind)
    (read : Expr.negated kind expr = .ok negative) : negative.Readable kind := by
  have minus : (Expr.number kind.one.negate).Readable kind := by
    apply Readable.number
    · simp
    · exact Number.isFinite_negate kind.isFinite_one
  cases expr with
  | number value =>
      cases read
      apply Readable.number
      · simp [readable.kind_constants value List.mem_cons_self]
      · exact Number.isFinite_negate (readable.isFinite_constants value List.mem_cons_self)
  | «variable» name =>
      cases read
      exact minus.binary readable rfl rfl (by simp)
  | binary operator left right =>
      rw [Expr.negated] at read
      split at read
      next => cases read
      next other =>
        cases read
        exact minus.binary readable rfl (by simp [isAssignment_binary, other]) (by simp)

theorem Readable.minuses {count : Nat} {operand : Except ReadError Expr} {expr : Expr}
    (readable : ∀ inner, operand = .ok inner → inner.Readable kind)
    (read : Expr.minuses kind count operand = .ok expr) : expr.Readable kind := by
  induction count generalizing expr with
  | zero => exact readable expr read
  | succ count inductionHypothesis =>
      cases taken : Expr.minuses kind count operand with
      | error error => simp [Expr.minuses, taken, Except.bind] at read
      | ok inner =>
          rw [Expr.minuses, taken] at read
          exact (inductionHypothesis taken).negated read

theorem Readable.combined {operator : Operator} {left right expr : Expr}
    (first : left.Readable kind) (second : right.Readable kind)
    (read : Expr.combined operator left right = .ok expr) : expr.Readable kind := by
  unfold Expr.combined at read
  split at read
  next => cases read
  next free =>
    simp only [Bool.or_eq_true, not_or, Bool.not_eq_true] at free
    split at read
    next => cases read
    next target =>
      cases read
      refine first.binary second free.1 free.2 fun assign => ?_
      simpa [assign] using target

theorem Readable.ofArrangement {arrangement : Arrangement (Except ReadError Expr)} {expr : Expr}
    (first : ∀ inner, arrangement.row.1 = .ok inner → inner.Readable kind)
    (others : ∀ entry ∈ arrangement.row.2, ∀ inner, entry.2 = .ok inner → inner.Readable kind)
    (read : Expr.ofArrangement arrangement = .ok expr) : expr.Readable kind := by
  induction arrangement generalizing expr with
  | operand value => exact first expr read
  | node operator left right leftHypothesis rightHypothesis =>
      rw [Expr.ofArrangement] at read
      cases leftRead : Expr.ofArrangement left with
      | error error =>
          rw [leftRead] at read
          cases read
      | ok low =>
          cases rightRead : Expr.ofArrangement right with
          | error error =>
              rw [leftRead, rightRead] at read
              cases read
          | ok high =>
              rw [leftRead, rightRead] at read
              have here := List.mem_append_right left.row.2
                (List.mem_cons_self (a := (operator, right.row.1)) (l := right.row.2))
              refine (leftHypothesis first ?_ leftRead).combined
                (rightHypothesis (others _ here) ?_ rightRead) read
              · intro entry member
                exact others entry (List.mem_append_left _ member)
              · intro entry member
                exact others entry (List.mem_append_right _ (List.mem_cons_of_mem _ member))

end Expr

namespace Grammar

mutual

theorem Primary.readable_of_expr (kind : Kind) (primary : Primary)
    (named : ∀ token ∈ primary.tokens, token.IsNamed) {expr : Expr}
    (read : primary.expr kind = .ok expr) : expr.Readable kind := by
  match primary with
  | .number text =>
      rw [Primary.expr] at read
      split at read
      next value found =>
        cases read
        exact .number (Kind.kind_of_literal? found) (Kind.isFinite_of_literal? found)
      next => cases read
  | .name text =>
      cases read
      have named := named (.name text) (by simp [Primary.tokens])
      exact .variable (by rwa [String.toList_ofList])
  | .parentheses content =>
      rw [Primary.expr] at read
      have inside := content.readable_of_operands kind fun token member =>
        named token (by simp [Primary.tokens, member])
      refine .ofArrangement ?_ ?_ read
      · rw [Arrangement.row_ofRow]
        exact inside.1
      · rw [Arrangement.row_ofRow]
        exact inside.2

theorem Phrase.readable_of_operands (kind : Kind) (phrase : Phrase)
    (named : ∀ token ∈ phrase.tokens, token.IsNamed) :
    (∀ inner, (phrase.operands kind).1 = .ok inner → inner.Readable kind) ∧
      ∀ entry ∈ (phrase.operands kind).2, ∀ inner, entry.2 = .ok inner →
        inner.Readable kind := by
  match phrase with
  | .last minuses primary =>
      have inside : ∀ inner, primary.expr kind = .ok inner → inner.Readable kind := fun inner =>
        primary.readable_of_expr kind fun token member =>
          named token (by simp [Phrase.tokens, member])
      exact ⟨fun inner => .minuses inside, by simp [Phrase.operands]⟩
  | .more minuses primary operator rest =>
      have inside : ∀ inner, primary.expr kind = .ok inner → inner.Readable kind := fun inner =>
        primary.readable_of_expr kind fun token member =>
          named token (by simp [Phrase.tokens, member])
      have later := rest.readable_of_operands kind fun token member =>
        named token (by simp [Phrase.tokens, member])
      refine ⟨fun inner => .minuses inside, fun entry member => ?_⟩
      rcases List.mem_cons.mp member with rfl | member
      · exact later.1
      · exact later.2 entry member

end

end Grammar

namespace Expr

variable {kind : Kind} {text : List Char} {expr : Expr}

theorem readable_of_read (read : Expr.read kind text = .ok expr) : expr.Readable kind := by
  rw [Expr.read] at read
  cases found : Phrase.read text with
  | error error =>
      rw [found] at read
      cases read
  | ok phrase =>
      rw [found] at read
      have operands := phrase.readable_of_operands kind (Phrase.isNamed_of_read found)
      refine .ofArrangement ?_ ?_ read
      · rw [Arrangement.row_ofRow]
        exact operands.1
      · rw [Arrangement.row_ofRow]
        exact operands.2

/-- What can be read is what is read back from its own text. -/
theorem Readable.read_written (readable : expr.Readable kind) :
    Expr.read kind expr.written = .ok expr := by
  have found := Expr.read_written readable.lawful
    ⟨readable.isName_names, readable.kind_constants⟩
  rwa [spelled_of_isFinite readable.isFinite_constants] at found

end Expr

end Worksheet
