import Mathlib.Logic.Function.Iterate
import Worksheet.Expr.Climbing
import Worksheet.Proofs.Grammar.Precedence

/-!
# Climbing gives the proper arrangement

An operator is taken in by the climb that stands as far down the right edge of the tree as
the bounds allow.  Hence the symbols of a proper arrangement are climbed to what its
operators make of its operands, and those of a phrase to the expression of the phrase.
-/

namespace Worksheet

namespace Grammar

/-! ### The table -/

theorem bindingPower_eq (operator : Operator) :
    bindingPower operator = 10 * (operator.priority + 1) := by
  cases operator <;> rfl

theorem rightBound_eq (operator : Operator) :
    rightBound operator =
      bindingPower operator - if operator.isRightAssociative then 1 else 0 := by
  cases operator <;> rfl

theorem bindingPower_lt_signPower (operator : Operator) :
    bindingPower operator < signPower := by
  cases operator <;> decide

variable {inner outer : Operator}

theorem le_rightBound_of_standsLeft (stands : standsLeft inner outer) :
    bindingPower outer ≤ rightBound inner := by
  rw [rightBound_eq, bindingPower_eq, bindingPower_eq]
  rcases stands with tighter | ⟨same, left⟩
  · split <;> omega
  · exact Nat.le_of_eq (by rw [left, same, if_neg Bool.false_ne_true, Nat.sub_zero])

theorem rightBound_lt_of_standsRight (stands : standsRight inner outer) :
    rightBound outer < bindingPower inner := by
  rw [rightBound_eq, bindingPower_eq, bindingPower_eq]
  rcases stands with tighter | ⟨same, right⟩
  · omega
  · rw [← isRightAssociative_congr same, right, if_pos rfl, same]
    omega

theorem rightBound_le_of_standsRight (stands : standsRight inner outer) :
    rightBound outer ≤ rightBound inner := by
  rw [rightBound_eq, rightBound_eq, bindingPower_eq, bindingPower_eq]
  rcases stands with tighter | ⟨same, -⟩
  · split <;> split <;> omega
  · exact Nat.le_of_eq (by rw [isRightAssociative_congr same, same])

/-! ### The equations of a climb -/

variable {τ : Type} (actions : Actions τ)

theorem climb_nil (bound : Nat) (left : τ) :
    climb actions bound (some left) [] = some (left, []) := by
  rw [climb, climbing]
  rfl

theorem climb_operand (bound : Nat) (value : τ) (rest : List (Symbol τ)) :
    climb actions bound none (.operand value :: rest) =
      climb actions bound (some value) rest := by
  rw [climb, climbing, climb]
  cases climbing actions bound (some value) rest <;> rfl

/-- A climb goes on behind an operand that has been climbed to. -/
theorem climb_then {symbols : List (Symbol τ)} (operand : Option (Climbed symbols))
    (symbol : Symbol τ) (bound : Nat) (next : τ → τ) :
    Option.map (fun climbed => (climbed.value, climbed.rest)) (do
        let operand ← operand
        let climbed ← climbing actions bound (some (next operand.value)) operand.rest
        some (climbed.over symbol operand.length_rest_le)) =
      (operand.map fun climbed => (climbed.value, climbed.rest)).bind fun reached =>
        climb actions bound (some (next reached.1)) reached.2 := by
  cases operand with
  | none => rfl
  | some operand =>
      rw [Option.bind_eq_bind, Option.bind_some, Option.map_some, Option.bind_some, climb]
      cases climbing actions bound (some (next operand.value)) operand.rest <;> rfl

theorem climb_sign (bound : Nat) (rest : List (Symbol τ)) :
    climb actions bound none (.sign :: rest) =
      (climb actions (signPower - 1) none rest).bind fun operand =>
        climb actions bound (some (actions.negate operand.1)) operand.2 := by
  rw [climb, climbing]
  exact climb_then actions _ _ bound actions.negate

theorem climb_binary_of_lt {bound : Nat} {operator : Operator}
    (lt : bound < bindingPower operator) (left : τ) (rest : List (Symbol τ)) :
    climb actions bound (some left) (.binary operator :: rest) =
      (climb actions (rightBound operator) none rest).bind fun right =>
        climb actions bound (some (actions.combine operator left right.1)) right.2 := by
  rw [climb, climbing, if_pos lt]
  exact climb_then actions _ _ bound (actions.combine operator left)

theorem climb_binary_of_le {bound : Nat} {operator : Operator}
    (le : bindingPower operator ≤ bound) (left : τ) (rest : List (Symbol τ)) :
    climb actions bound (some left) (.binary operator :: rest) =
      some (left, .binary operator :: rest) := by
  rw [climb, climbing, if_neg (Nat.not_lt.mpr le)]
  rfl

/-! ### Climbs over arrangements -/

/-- What comes next binds no more tightly than the bound. -/
def Loose (bound : Nat) (rest : List (Symbol τ)) : Prop :=
  ∀ symbol ∈ rest.head?, ∃ operator, symbol = .binary operator ∧ bindingPower operator ≤ bound

theorem Loose.mono {bound other : Nat} {rest : List (Symbol τ)} (loose : Loose bound rest)
    (le : bound ≤ other) : Loose other rest := by
  intro symbol first
  obtain ⟨operator, same, bounded⟩ := loose symbol first
  exact ⟨operator, same, Nat.le_trans bounded le⟩

theorem loose_cons {bound : Nat} {operator : Operator} (le : bindingPower operator ≤ bound)
    (rest : List (Symbol τ)) : Loose bound (.binary operator :: rest) := by
  intro symbol first
  cases first
  exact ⟨operator, rfl, le⟩

theorem climb_of_loose {bound : Nat} {rest : List (Symbol τ)} (loose : Loose bound rest)
    (left : τ) : climb actions bound (some left) rest = some (left, rest) := by
  cases rest with
  | nil => exact climb_nil actions bound left
  | cons symbol rest =>
      obtain ⟨operator, rfl, bounded⟩ := loose symbol rfl
      exact climb_binary_of_le actions bounded left rest

/-- An operand and the signs before it. -/
structure Signed (τ : Type) where
  signs : Nat
  value : τ

namespace Signed

def symbols (operand : Signed τ) : List (Symbol τ) :=
  List.replicate operand.signs .sign ++ [.operand operand.value]

/-- The value under its signs, the innermost applied first. -/
def fold (operand : Signed τ) : τ :=
  actions.negate^[operand.signs] operand.value

end Signed

theorem climb_signed (operand : Signed τ) {rest : List (Symbol τ)}
    (loose : Loose (signPower - 1) rest) (bound : Nat) :
    climb actions bound none (operand.symbols ++ rest) =
      climb actions bound (some (operand.fold actions)) rest := by
  obtain ⟨count, value⟩ := operand
  rw [Signed.symbols, Signed.fold, List.append_assoc, List.singleton_append]
  induction count generalizing bound with
  | zero => rw [List.replicate_zero, List.nil_append, climb_operand, Function.iterate_zero_apply]
  | succ count inductionHypothesis =>
      rw [List.replicate_succ, List.cons_append, climb_sign, inductionHypothesis,
        climb_of_loose actions loose, Function.iterate_succ_apply']
      rfl

namespace Arrangement

def symbols : Arrangement (Signed τ) → List (Symbol τ)
  | operand value => value.symbols
  | node operator left right => left.symbols ++ .binary operator :: right.symbols

def fold : Arrangement (Signed τ) → τ
  | operand value => value.fold actions
  | node operator left right => actions.combine operator left.fold right.fold

/-- The bound with which the end of an arrangement has been read. -/
def lastBound (arrangement : Arrangement (Signed τ)) : Nat :=
  match arrangement.top? with
  | none => signPower - 1
  | some operator => rightBound operator

theorem climb_symbols {arrangement : Arrangement (Signed τ)} (proper : arrangement.Proper)
    {bound : Nat} (above : ∀ top, arrangement.top? = some top → bound < bindingPower top)
    {rest : List (Symbol τ)} (loose : Loose arrangement.lastBound rest) :
    climb actions bound none (arrangement.symbols ++ rest) =
      climb actions bound (some (arrangement.fold actions)) rest := by
  -- A climb over the left operand goes on to the operator, and one over the right operand stops
  -- at what comes behind the whole.
  induction arrangement generalizing bound rest with
  | operand value => exact climb_signed actions value loose bound
  | node operator left right leftHypothesis rightHypothesis =>
      obtain ⟨leftProper, rightProper, leftStands, rightStands⟩ := proper
      have exceeds : bound < bindingPower operator := above operator rfl
      have below := bindingPower_lt_signPower operator
      have leftLoose : Loose left.lastBound (.binary operator :: (right.symbols ++ rest)) := by
        apply loose_cons
        rw [lastBound]
        split
        · omega
        next inner top => exact le_rightBound_of_standsLeft (leftStands inner top)
      have leftAbove (inner : Operator) (top : left.top? = some inner) :
          bound < bindingPower inner := by
        have stands := le_rightBound_of_standsLeft (leftStands inner top)
        rw [rightBound_eq] at stands
        omega
      have behind : Loose (rightBound operator) rest := loose
      have rightLoose : Loose right.lastBound rest := by
        apply behind.mono
        rw [lastBound]
        split
        · rw [rightBound_eq]
          omega
        next inner top => exact rightBound_le_of_standsRight (rightStands inner top)
      have rightAbove (inner : Operator) (top : right.top? = some inner) :
          rightBound operator < bindingPower inner :=
        rightBound_lt_of_standsRight (rightStands inner top)
      rw [symbols, List.append_assoc, List.cons_append,
        leftHypothesis leftProper leftAbove leftLoose, climb_binary_of_lt actions exceeds,
        rightHypothesis rightProper rightAbove rightLoose, climb_of_loose actions behind]
      rfl

theorem symbols_eq_row (arrangement : Arrangement (Signed τ)) :
    arrangement.symbols = arrangement.row.1.symbols ++
      arrangement.row.2.flatMap fun entry => .binary entry.1 :: entry.2.symbols := by
  induction arrangement with
  | operand value => simp [row, symbols]
  | node operator left right leftHypothesis rightHypothesis =>
      rw [symbols, leftHypothesis, rightHypothesis]
      simp [row]

end Arrangement

/-! ### The expression of a phrase -/

namespace Phrase

def signedRow (kind : Kind) : Phrase →
    Signed (Except ReadError Expr) × List (Operator × Signed (Except ReadError Expr))
  | .last minuses primary => (⟨minuses, primary.expr kind⟩, [])
  | .more minuses primary operator rest =>
      (⟨minuses, primary.expr kind⟩,
        (operator, (rest.signedRow kind).1) :: (rest.signedRow kind).2)

def symbols (kind : Kind) (phrase : Phrase) : List (Symbol (Except ReadError Expr)) :=
  (phrase.signedRow kind).1.symbols ++
    (phrase.signedRow kind).2.flatMap fun entry => .binary entry.1 :: entry.2.symbols

@[simp]
theorem symbols_last (kind : Kind) (minuses : Nat) (primary : Primary) :
    (last minuses primary).symbols kind = Signed.symbols ⟨minuses, primary.expr kind⟩ :=
  List.append_nil _

@[simp]
theorem symbols_more (kind : Kind) (minuses : Nat) (primary : Primary) (operator : Operator)
    (rest : Phrase) :
    (more minuses primary operator rest).symbols kind =
      Signed.symbols ⟨minuses, primary.expr kind⟩ ++ .binary operator :: rest.symbols kind :=
  rfl

theorem minuses_eq_fold (kind : Kind) (minuses : Nat) (operand : Except ReadError Expr) :
    Expr.minuses kind minuses operand =
      Signed.fold (Expr.actions kind) ⟨minuses, operand⟩ := by
  induction minuses with
  | zero => rfl
  | succ count inductionHypothesis =>
      rw [Expr.minuses, inductionHypothesis, Signed.fold, Signed.fold,
        Function.iterate_succ_apply']
      rfl

theorem operands_eq_signedRow (kind : Kind) (phrase : Phrase) :
    phrase.operands kind = ((phrase.signedRow kind).1.fold (Expr.actions kind),
      (phrase.signedRow kind).2.map fun entry =>
        (entry.1, entry.2.fold (Expr.actions kind))) := by
  match phrase with
  | .last minuses primary =>
      rw [Phrase.operands, minuses_eq_fold]
      rfl
  | .more minuses primary operator rest =>
      rw [Phrase.operands, minuses_eq_fold, operands_eq_signedRow kind rest]
      rfl

theorem ofArrangement_map_fold (kind : Kind)
    (arrangement : Arrangement (Signed (Except ReadError Expr))) :
    Expr.ofArrangement (arrangement.map fun operand => operand.fold (Expr.actions kind)) =
      arrangement.fold (Expr.actions kind) := by
  induction arrangement with
  | operand value => rfl
  | node operator left right leftHypothesis rightHypothesis =>
      rw [Arrangement.map, Expr.ofArrangement, leftHypothesis, rightHypothesis]
      rfl

/-- The symbols of a phrase are climbed to its expression, or to the error in its place. -/
theorem climb_symbols (kind : Kind) (phrase : Phrase) :
    climb (Expr.actions kind) 0 none (phrase.symbols kind) = some (phrase.expr kind, []) := by
  let arrangement :=
    Arrangement.ofRow (phrase.signedRow kind).1 (phrase.signedRow kind).2
  have spelled : phrase.symbols kind = arrangement.symbols ++ [] := by
    rw [List.append_nil, Arrangement.symbols_eq_row, Arrangement.row_ofRow]
    rfl
  have made : phrase.expr kind = arrangement.fold (Expr.actions kind) := by
    rw [Phrase.expr, operands_eq_signedRow,
      Arrangement.ofRow_map fun operand : Signed _ => operand.fold (Expr.actions kind),
      ofArrangement_map_fold]
  have ended (bound : Nat) : Loose bound ([] : List (Symbol (Except ReadError Expr))) := by
    intro symbol first
    cases first
  rw [spelled, made, Arrangement.climb_symbols _ (Arrangement.proper_ofRow _ _) _ (ended _),
    climb_of_loose _ (ended _)]
  intro top _
  rw [bindingPower_eq]
  exact Nat.mul_pos (by decide) (Nat.succ_pos _)

end Phrase

end Grammar

end Worksheet
