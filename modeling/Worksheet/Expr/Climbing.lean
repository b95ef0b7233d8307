import Worksheet.Expr.Read
import Worksheet.Grammar.Peg

/-!
Climbing: the expression of the pairs found in a text, by the power with which each operator
binds.

The powers come from a table of their own.  A climb takes in operands and operators from the
left as long as they bind more tightly than the bound that it has been given; the right
operand of an operator is a climb with a bound that depends on how the operator associates.
-/

namespace Worksheet

namespace Grammar

/-! ### Binding powers -/

inductive Associativity where
  | left
  | right
deriving DecidableEq

/-- The operators that bind alike, line by line.  Each line binds more tightly than those
before it, and the sign more tightly than all of them. -/
def bindingTable : List (Associativity × List Operator) :=
  [(.right, [.assign]),
   (.left, [.add, .subtract]),
   (.left, [.multiply, .divide]),
   (.right, [.power])]

def bindingPower (operator : Operator) : Nat :=
  10 * (bindingTable.findIdx (fun line => line.2.contains operator) + 1)

def signPower : Nat :=
  10 * (bindingTable.length + 1)

def associatesRight (operator : Operator) : Bool :=
  bindingTable.any fun line => line.1 = .right && line.2.contains operator

/-- What the right operand of an operator has to exceed. -/
def rightBound (operator : Operator) : Nat :=
  if associatesRight operator then bindingPower operator - 1 else bindingPower operator

/-! ### Climbs -/

inductive Symbol (τ : Type) where
  | operand (value : τ)
  | sign
  | binary (operator : Operator)

/-- What becomes of operands under signs and operators. -/
structure Actions (τ : Type) where
  negate : τ → τ
  combine : Operator → τ → τ → τ

/-- What a climb over symbols arrives at, and the symbols that it leaves. -/
structure Climbed {τ : Type} (symbols : List (Symbol τ)) where
  value : τ
  rest : List (Symbol τ)
  length_rest_le : rest.length ≤ symbols.length

def Climbed.over {τ : Type} {inner : List (Symbol τ)} (climbed : Climbed inner)
    (symbol : Symbol τ) {symbols : List (Symbol τ)} (le : inner.length ≤ symbols.length) :
    Climbed (symbol :: symbols) :=
  ⟨climbed.value, climbed.rest, Nat.le_succ_of_le (Nat.le_trans climbed.length_rest_le le)⟩

/-- Climbs from the left operand, if it is known already, as far as operators exceed the
bound.  There is no result where a symbol stands out of place. -/
def climbing {τ : Type} (actions : Actions τ) (bound : Nat) :
    Option τ → (symbols : List (Symbol τ)) → Option (Climbed symbols)
  | none, .operand value :: rest => do
      let climbed ← climbing actions bound (some value) rest
      some (climbed.over _ (Nat.le_refl _))
  | none, .sign :: rest => do
      let operand ← climbing actions (signPower - 1) none rest
      let climbed ← climbing actions bound (some (actions.negate operand.value)) operand.rest
      some (climbed.over _ operand.length_rest_le)
  | some left, .binary operator :: rest =>
      if bound < bindingPower operator then do
        let right ← climbing actions (rightBound operator) none rest
        let climbed ← climbing actions bound
          (some (actions.combine operator left right.value)) right.rest
        some (climbed.over _ right.length_rest_le)
      else some ⟨left, .binary operator :: rest, Nat.le_refl _⟩
  | some left, [] => some ⟨left, [], Nat.le_refl _⟩
  | _, _ => none
termination_by _ symbols => symbols.length
decreasing_by
  all_goals simp only [List.length_cons]
  · omega
  · omega
  · exact Nat.lt_succ_of_le operand.length_rest_le
  · omega
  · exact Nat.lt_succ_of_le right.length_rest_le

/-- The value of a climb and the symbols behind it. -/
def climb {τ : Type} (actions : Actions τ) (bound : Nat) (left : Option τ)
    (symbols : List (Symbol τ)) : Option (τ × List (Symbol τ)) :=
  (climbing actions bound left symbols).map fun climbed => (climbed.value, climbed.rest)

end Grammar

open Grammar

/-! ### Pairs -/

def Expr.actions (kind : Kind) : Actions (Except ReadError Expr) where
  negate operand := operand.bind (Expr.negated kind)
  combine operator left right := do
    let left ← left
    let right ← right
    Expr.combined operator left right

namespace Grammar

mutual

def Pair.symbol? (kind : Kind) : Pair → Option (Symbol (Except ReadError Expr))
  | ⟨.neg, _, _⟩ => some .sign
  | ⟨.operation operator, _, _⟩ => some (.binary operator)
  | ⟨.number, text, _⟩ => some (.operand ((Primary.number text).expr kind))
  | ⟨.identifier, text, _⟩ => some (.operand ((Primary.name text).expr kind))
  | ⟨.expr, _, inner⟩ => do
      let symbols ← Pair.symbols? kind inner
      let (value, _) ← climb (Expr.actions kind) 0 none symbols
      some (.operand value)
  | _ => none

def Pair.symbols? (kind : Kind) : List Pair → Option (List (Symbol (Except ReadError Expr)))
  | [] => some []
  | pair :: pairs => do
      let symbol ← pair.symbol? kind
      let symbols ← Pair.symbols? kind pairs
      some (symbol :: symbols)

end

end Grammar

end Worksheet
