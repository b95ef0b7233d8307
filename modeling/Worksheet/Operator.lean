/-!
The binary operators and the strength with which they bind.
-/

namespace Worksheet

inductive Operator where
  | assign
  | add
  | subtract
  | multiply
  | divide
  | power
deriving DecidableEq, Repr

namespace Operator

def all : List Operator := [assign, add, subtract, multiply, divide, power]

def symbol : Operator → Char
  | assign => '='
  | add => '+'
  | subtract => '-'
  | multiply => '*'
  | divide => '/'
  | power => '^'

def ofSymbol? : Char → Option Operator
  | '=' => some assign
  | '+' => some add
  | '-' => some subtract
  | '*' => some multiply
  | '/' => some divide
  | '^' => some power
  | _ => none

/-- An operator of higher priority binds its operands more tightly. -/
def priority : Operator → Nat
  | assign => 0
  | add | subtract => 1
  | multiply | divide => 2
  | power => 3

def isRightAssociative : Operator → Bool
  | assign | power => true
  | _ => false

/-- Whether a left operand needs parentheses, by the operator that it ends with if there is one. -/
def enclosesLeft (outer : Operator) : Option Operator → Bool
  | none => false
  | some inner =>
      inner.priority < outer.priority ||
        inner.priority = outer.priority && outer.isRightAssociative

def enclosesRight (outer : Operator) : Option Operator → Bool
  | none => false
  | some inner => inner.priority ≤ outer.priority

@[simp]
theorem ofSymbol?_symbol (operator : Operator) : ofSymbol? operator.symbol = some operator := by
  cases operator <;> rfl

theorem symbol_of_ofSymbol? {c : Char} {operator : Operator} (found : ofSymbol? c = some operator) :
    operator.symbol = c := by
  unfold ofSymbol? at found
  split at found <;> simp_all [symbol] <;> subst found <;> rfl

end Operator

instance : ToString Operator := ⟨fun operator => operator.symbol.toString⟩

end Worksheet
