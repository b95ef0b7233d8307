import Worksheet.Operator

/-!
Precedence: the tree that a row of operands and operators stands for.

The operands are taken in one by one.  A new operator goes as far down the right
edge of the tree as the operators there give way to it, and takes over what it
finds.
-/

namespace Worksheet.Grammar

universe u

/-- Operators over operands that are looked into no further. -/
inductive Arrangement (α : Type u) where
  | operand (value : α)
  | node (operator : Operator) (left right : Arrangement α)
deriving Repr

/-- Whether an operator leaves its right operand to one that comes after it. -/
def givesWay (earlier later : Operator) : Bool :=
  earlier.priority < later.priority ||
    earlier.priority = later.priority && earlier.isRightAssociative

namespace Arrangement

variable {α : Type u}

/-- Adds an operator and its right operand at the end. -/
def extend (arrangement : Arrangement α) (later : Operator) (value : α) : Arrangement α :=
  match arrangement with
  | operand first => node later (operand first) (operand value)
  | node operator left right =>
      if givesWay operator later then node operator left (right.extend later value)
      else node later (node operator left right) (operand value)

def ofRow (first : α) (rest : List (Operator × α)) : Arrangement α :=
  rest.foldl (fun arrangement (operator, value) => arrangement.extend operator value)
    (operand first)

/-- The first operand from the left, and the others with the operators before them. -/
def row : Arrangement α → α × List (Operator × α)
  | operand value => (value, [])
  | node operator left right => (left.row.1, left.row.2 ++ (operator, right.row.1) :: right.row.2)

@[simp]
theorem row_extend (arrangement : Arrangement α) (later : Operator) (value : α) :
    (arrangement.extend later value).row =
      (arrangement.row.1, arrangement.row.2 ++ [(later, value)]) := by
  induction arrangement with
  | operand first => rfl
  | node operator left right _ inductionHypothesis =>
      rw [extend]
      split
      · simp [row, inductionHypothesis]
      · rfl

theorem row_ofRow (first : α) (rest : List (Operator × α)) :
    (ofRow first rest).row = (first, rest) := by
  have fold (rest : List (Operator × α)) (arrangement : Arrangement α) :
      (rest.foldl (fun arrangement (operator, value) => arrangement.extend operator value)
        arrangement).row = (arrangement.row.1, arrangement.row.2 ++ rest) := by
    induction rest generalizing arrangement with
    | nil => simp
    | cons head tail inductionHypothesis => simp [inductionHypothesis]
  rw [ofRow, fold]
  rfl

end Arrangement

end Worksheet.Grammar
