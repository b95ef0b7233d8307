import Worksheet.Proofs.Decimal.Range
import Worksheet.Proofs.Expr.Names

/-!
# Integers are numbers of every kind

Whatever is read with integers is read with floating-point numbers, too, as an expression of
the same shape.  Every literal of an integer is one of a finite number, and how operators and
minuses are applied does not depend on what the numbers are.
-/

namespace Worksheet

open Binary Decimal Grammar

/-! ### Literals -/

/-- The literal of an integer is digits after at most one sign, and it is not too long. -/
theorem splitSign_of_readInteger? {text : List Char} {value : Int32}
    (found : readInteger? text = some value) :
    ∃ negative digits, splitSign text = (negative, digits) ∧ digits ≠ [] ∧
      (∀ c ∈ digits, c.isDigit = true) ∧ Nat.ofDigitChars 10 digits 0 ≤ 2147483648 := by
  rcases signed : splitSign text with ⟨negative, digits⟩
  rw [readInteger?, signed] at found
  obtain ⟨size, sized, found⟩ := Option.bind_eq_some_iff.mp found
  rw [wholeNumber?] at sized
  split at sized
  next => cases sized
  next proper =>
    cases sized
    simp only [Bool.or_eq_true, not_or, Bool.not_eq_true, List.isEmpty_eq_false_iff,
      Bool.not_eq_false', List.all_eq_true] at proper
    refine ⟨negative, digits, rfl, proper.1, proper.2, ?_⟩
    dsimp only at found
    have range := (Option.ite_none_right_eq_some.mp found).1
    split at range <;> omega

namespace Decimal

theorem formed_digits {digits : List Char} (filled : digits ≠ [])
    (all : ∀ c ∈ digits, c.isDigit = true) : Lexeme.Formed ⟨digits, none, none⟩ :=
  ⟨filled, all, by simp [Lexeme.fractionDigits]⟩

theorem chars_digits (digits : List Char) : Lexeme.chars ⟨digits, none, none⟩ = digits := by
  simp [Lexeme.chars, Lexeme.fractionChars, Lexeme.exponentChars]

theorem decimal_digits (digits : List Char) :
    Lexeme.decimal ⟨digits, none, none⟩ = ⟨Nat.ofDigitChars 10 digits 0, 0⟩ := by
  simp [Lexeme.decimal, Lexeme.fractionDigits]

end Decimal

theorem lt_two_pow_of_size {size bias : Nat} (bound : size ≤ 2147483648) (wide : 32 ≤ bias) :
    size < 2 ^ bias :=
  calc size < 2 ^ 32 := bound.trans_lt (by decide)
    _ ≤ 2 ^ bias := Nat.pow_le_pow_right (by decide) wide

theorem exists_readFloating? (F : Type) [Floating F] [LawfulFloating F]
    {text digits : List Char} {negative : Bool} {size : Nat}
    (signed : splitSign text = (negative, digits))
    (unsigned : Reading.ofUnsigned? digits = some (.decimal ⟨size, 0⟩))
    (bound : size < 2 ^ (Floating.spec F).exponentBias) :
    ∃ value : F, readFloating? text = some value ∧ Floating.isFinite value = true := by
  refine ⟨_, readFloating?_of_signed signed unsigned, ?_⟩
  split
  next => exact isFinite_neg _ (isFinite_whole bound)
  next => exact isFinite_whole bound

theorem Kind.exists_literal? (kind : Kind) {text : List Char} {value : Number}
    (found : Kind.int.literal? text = some value) : ∃ image, kind.literal? text = some image := by
  obtain ⟨integer, read, rfl⟩ :=
    Option.map_eq_some_iff.mp (Option.filter_eq_some_iff.mp found).1
  obtain ⟨negative, digits, signed, filled, all, bound⟩ := splitSign_of_readInteger? read
  have unsigned := ofUnsigned?_chars (formed_digits filled all)
  rw [chars_digits, decimal_digits] at unsigned
  generalize Nat.ofDigitChars 10 digits 0 = size at bound unsigned
  cases kind with
  | int => exact ⟨_, found⟩
  | float =>
      obtain ⟨image, read, finite⟩ :=
        exists_readFloating? Float32 signed unsigned (lt_two_pow_of_size bound (by decide))
      have taken := congrArg (Option.map Number.float) read
      exact ⟨_, Option.filter_eq_some_iff.mpr ⟨taken, finite⟩⟩
  | double =>
      obtain ⟨image, read, finite⟩ :=
        exists_readFloating? Float signed unsigned (lt_two_pow_of_size bound (by decide))
      have taken := congrArg (Option.map Number.double) read
      exact ⟨_, Option.filter_eq_some_iff.mpr ⟨taken, finite⟩⟩

/-! ### Shapes -/

namespace Expr

/-- The same operators over the same variables, with numbers in the same places. -/
inductive SameShape : Expr → Expr → Prop where
  | number {left right : Number} : SameShape (.number left) (.number right)
  | variable {name : String} : SameShape (.variable name) (.variable name)
  | binary {operator : Operator} {left right left' right' : Expr} (first : SameShape left left')
      (second : SameShape right right') :
      SameShape (.binary operator left right) (.binary operator left' right')

variable {expr image : Expr}

theorem SameShape.isAssignment (same : expr.SameShape image) :
    expr.isAssignment = image.isAssignment := by
  cases same with
  | number => rfl
  | «variable» => rfl
  | binary => rw [isAssignment_binary, isAssignment_binary]

theorem SameShape.isVariable (same : expr.SameShape image) :
    expr.isVariable = image.isVariable := by
  cases same <;> rfl

/-- Wherever the first answer is an expression, the second one is, too, and of the same
shape. -/
def Widens (first second : Except ReadError Expr) : Prop :=
  ∀ expr, first = .ok expr → ∃ image, second = .ok image ∧ expr.SameShape image

variable {first second : Except ReadError Expr}

theorem widens_of_sameShape (same : expr.SameShape image) : Widens (.ok expr) (.ok image) := by
  intro inner read
  cases read
  exact ⟨image, rfl, same⟩

theorem Widens.bind {next next' : Expr → Except ReadError Expr} (widens : Widens first second)
    (step : ∀ expr image, expr.SameShape image → Widens (next expr) (next' image)) :
    Widens (first.bind next) (second.bind next') := by
  intro last read
  obtain ⟨expr, here, read⟩ := bind_eq_ok_iff.mp read
  obtain ⟨image, here', same⟩ := widens expr here
  rw [here']
  exact step expr image same last read

theorem widens_negated (kind kind' : Kind) (same : expr.SameShape image) :
    Widens (expr.negated kind) (image.negated kind') := by
  cases same with
  | number => exact widens_of_sameShape .number
  | «variable» => exact widens_of_sameShape (.binary .number .variable)
  | @binary operator _ _ _ _ first second =>
      rw [negated, negated]
      split
      next =>
        intro inner read
        cases read
      next => exact widens_of_sameShape (.binary .number (.binary first second))

theorem Widens.minuses (kind kind' : Kind) (widens : Widens first second) (count : Nat) :
    Widens (Expr.minuses kind count first) (Expr.minuses kind' count second) := by
  induction count with
  | zero => exact widens
  | succ count inductionHypothesis =>
      exact inductionHypothesis.bind fun _ _ => widens_negated kind kind'

theorem widens_combined (operator : Operator) {left right left' right' : Expr}
    (low : left.SameShape left') (high : right.SameShape right') :
    Widens (Expr.combined operator left right) (Expr.combined operator left' right') := by
  rw [combined, combined, low.isAssignment, high.isAssignment, low.isVariable]
  split
  next =>
    intro inner read
    cases read
  next =>
    split
    next =>
      intro inner read
      cases read
    next => exact widens_of_sameShape (.binary low high)

end Expr

/-! ### Arrangements -/

namespace Grammar

namespace Arrangement

universe u v

variable {α : Type u} {β : Type v} {related : α → β → Prop}

inductive Alongside (related : α → β → Prop) : Arrangement α → Arrangement β → Prop where
  | operand {value : α} {other : β} (here : related value other) :
      Alongside related (.operand value) (.operand other)
  | node {operator : Operator} {left right : Arrangement α} {left' right' : Arrangement β}
      (first : Alongside related left left') (second : Alongside related right right') :
      Alongside related (.node operator left right) (.node operator left' right')

theorem Alongside.extend {arrangement : Arrangement α} {arrangement' : Arrangement β}
    (along : arrangement.Alongside related arrangement') (later : Operator) {value : α}
    {other : β} (here : related value other) :
    (arrangement.extend later value).Alongside related (arrangement'.extend later other) := by
  induction along with
  | operand first => exact .node (.operand first) (.operand here)
  | node first second _ inductionHypothesis =>
      rw [Arrangement.extend, Arrangement.extend]
      split
      next => exact .node first inductionHypothesis
      next => exact .node (.node first second) (.operand here)

/-- Operators are applied by precedence, whatever they are applied to. -/
theorem alongside_ofRow {value : α} {other : β} (here : related value other)
    {rest : List (Operator × α)} {rest' : List (Operator × β)}
    (later : List.Forall₂ (fun entry entry' => entry.1 = entry'.1 ∧ related entry.2 entry'.2)
      rest rest') :
    (ofRow value rest).Alongside related (ofRow other rest') := by
  have fold {arrangement : Arrangement α} {arrangement' : Arrangement β}
      (along : arrangement.Alongside related arrangement') :
      (rest.foldl (fun arrangement entry => arrangement.extend entry.1 entry.2)
        arrangement).Alongside related
        (rest'.foldl (fun arrangement entry => arrangement.extend entry.1 entry.2)
          arrangement') := by
    induction later generalizing arrangement arrangement' with
    | nil => exact along
    | cons both _ inductionHypothesis =>
        obtain ⟨same, here⟩ := both
        rw [List.foldl_cons, List.foldl_cons, same]
        exact inductionHypothesis (along.extend _ here)
  exact fold (.operand here)

end Arrangement

end Grammar

theorem Expr.widens_ofArrangement {arrangement arrangement' : Arrangement (Except ReadError Expr)}
    (along : arrangement.Alongside Widens arrangement') :
    Widens (Expr.ofArrangement arrangement) (Expr.ofArrangement arrangement') := by
  induction along with
  | operand here => exact here
  | node _ _ leftHypothesis rightHypothesis =>
      exact leftHypothesis.bind fun _ _ low => rightHypothesis.bind fun _ _ high =>
        widens_combined _ low high

/-! ### Phrases -/

namespace Grammar

mutual

theorem Primary.widens (kind : Kind) (primary : Primary) :
    Expr.Widens (primary.expr .int) (primary.expr kind) := by
  match primary with
  | .number text =>
      intro expr read
      rw [Primary.expr] at read ⊢
      split at read
      next value found =>
        cases read
        obtain ⟨image, found'⟩ := kind.exists_literal? found
        rw [found']
        exact ⟨_, rfl, .number⟩
      next => cases read
  | .name text => exact Expr.widens_of_sameShape .variable
  | .parentheses content =>
      obtain ⟨first, rest⟩ := content.widens_operands kind
      exact Expr.widens_ofArrangement (Arrangement.alongside_ofRow first rest)

theorem Phrase.widens_operands (kind : Kind) (phrase : Phrase) :
    Expr.Widens (phrase.operands .int).1 (phrase.operands kind).1 ∧
      List.Forall₂ (fun entry entry' => entry.1 = entry'.1 ∧ Expr.Widens entry.2 entry'.2)
        (phrase.operands .int).2 (phrase.operands kind).2 := by
  match phrase with
  | .last minuses primary => exact ⟨(primary.widens kind).minuses _ _ minuses, .nil⟩
  | .more minuses primary operator rest =>
      obtain ⟨first, later⟩ := rest.widens_operands kind
      exact ⟨(primary.widens kind).minuses _ _ minuses, .cons ⟨rfl, first⟩ later⟩

end

end Grammar

/-- A text that is read with integers is read with numbers of every kind, as an expression
of the same shape. -/
theorem Expr.exists_read_of_int (kind : Kind) {text : List Char} {expr : Expr}
    (read : Expr.read .int text = .ok expr) :
    ∃ image, Expr.read kind text = .ok image ∧ expr.SameShape image := by
  obtain ⟨phrase, found, read⟩ := bind_eq_ok_iff.mp read
  obtain ⟨first, rest⟩ := phrase.widens_operands kind
  have widens := Expr.widens_ofArrangement (Arrangement.alongside_ofRow first rest)
  rw [Expr.read, found]
  exact widens expr read

end Worksheet
