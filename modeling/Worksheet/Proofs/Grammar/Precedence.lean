import Worksheet.Grammar.Precedence

/-!
# Arrangements by precedence

An arrangement is proper when no operator in it would have taken over an operand of
another one.  The arrangement of a row is proper, and a row has only one proper
arrangement.
-/

namespace Worksheet.Grammar

universe u v

def standsLeft (inner outer : Operator) : Prop :=
  outer.priority < inner.priority ∨
    inner.priority = outer.priority ∧ inner.isRightAssociative = false

def standsRight (inner outer : Operator) : Prop :=
  outer.priority < inner.priority ∨
    inner.priority = outer.priority ∧ inner.isRightAssociative = true

theorem isRightAssociative_congr {first second : Operator}
    (same : first.priority = second.priority) :
    first.isRightAssociative = second.isRightAssociative := by
  cases first <;> cases second <;> first | rfl | cases same

theorem standsRight_iff_givesWay {inner outer : Operator} :
    standsRight inner outer ↔ givesWay outer inner = true := by
  simp only [standsRight, givesWay, Bool.or_eq_true, Bool.and_eq_true, decide_eq_true_eq]
  refine or_congr_right ?_
  constructor
  · intro ⟨same, right⟩
    exact ⟨same.symm, isRightAssociative_congr same ▸ right⟩
  · intro ⟨same, right⟩
    exact ⟨same.symm, isRightAssociative_congr same ▸ right⟩

theorem standsLeft_iff_not_givesWay {inner outer : Operator} :
    standsLeft inner outer ↔ givesWay inner outer = false := by
  cases inner <;> cases outer <;> simp [standsLeft, givesWay, Operator.priority,
    Operator.isRightAssociative]

namespace Arrangement

variable {α : Type u} {β : Type v}

def top? : Arrangement α → Option Operator
  | operand _ => none
  | node operator _ _ => some operator

def Proper : Arrangement α → Prop
  | operand _ => True
  | node operator left right =>
      left.Proper ∧ right.Proper ∧
        (∀ inner, left.top? = some inner → standsLeft inner operator) ∧
        ∀ inner, right.top? = some inner → standsRight inner operator

/-! ### The arrangement of a row is proper -/

theorem top?_extend {arrangement : Arrangement α} {later inner : Operator} {value : α}
    (top : (arrangement.extend later value).top? = some inner) :
    inner = later ∨ arrangement.top? = some inner := by
  cases arrangement with
  | operand first =>
      cases top
      exact .inl rfl
  | node operator left right =>
      rw [extend] at top
      split at top
      next =>
        cases top
        exact .inr rfl
      next =>
        cases top
        exact .inl rfl

theorem proper_extend {arrangement : Arrangement α} (proper : arrangement.Proper)
    (later : Operator) (value : α) : (arrangement.extend later value).Proper := by
  induction arrangement with
  | operand first => simp [extend, Proper, top?]
  | node operator left right _ inductionHypothesis =>
      obtain ⟨leftProper, rightProper, leftStands, rightStands⟩ := proper
      rw [extend]
      split
      next gives =>
        refine ⟨leftProper, inductionHypothesis rightProper, leftStands, fun inner top => ?_⟩
        rcases top?_extend top with rfl | below
        · exact standsRight_iff_givesWay.mpr gives
        · exact rightStands inner below
      next stays =>
        refine ⟨⟨leftProper, rightProper, leftStands, rightStands⟩, trivial, ?_, ?_⟩
        · intro inner top
          cases top
          exact standsLeft_iff_not_givesWay.mpr (by simpa using stays)
        · intro inner top
          cases top

theorem proper_ofRow (first : α) (rest : List (Operator × α)) : (ofRow first rest).Proper := by
  have fold (arrangement : Arrangement α) (proper : arrangement.Proper) :
      (rest.foldl (fun arrangement entry => arrangement.extend entry.1 entry.2)
        arrangement).Proper := by
    induction rest generalizing arrangement with
    | nil => exact proper
    | cons entry others inductionHypothesis =>
        exact inductionHypothesis _ (proper_extend proper entry.1 entry.2)
  exact fold (operand first) trivial

/-! ### A row has one proper arrangement -/

/-- Further down, operators bind more tightly. -/
theorem priority_le_of_mem_row {arrangement : Arrangement α} (proper : arrangement.Proper)
    {top : Operator} (above : arrangement.top? = some top) {entry : Operator × α}
    (member : entry ∈ arrangement.row.2) : top.priority ≤ entry.1.priority := by
  induction arrangement generalizing top with
  | operand first => cases above
  | node operator left right leftHypothesis rightHypothesis =>
      obtain ⟨leftProper, rightProper, leftStands, rightStands⟩ := proper
      cases above
      rcases List.mem_append.mp member with inside | rest
      · cases left with
        | operand first => cases inside
        | node inner _ _ =>
            have below := leftHypothesis leftProper rfl inside
            rcases leftStands inner rfl with less | ⟨same, -⟩ <;> omega
      · rcases List.mem_cons.mp rest with rfl | inside
        · exact Nat.le_refl _
        · cases right with
          | operand first => cases inside
          | node inner _ _ =>
              have below := rightHypothesis rightProper rfl inside
              rcases rightStands inner rfl with less | ⟨same, -⟩ <;> omega

theorem foldl_node {operator : Operator} {left right : Arrangement α}
    {rest : List (Operator × α)} (gives : ∀ entry ∈ rest, givesWay operator entry.1 = true) :
    rest.foldl (fun arrangement (later, value) => arrangement.extend later value)
        (node operator left right) =
      node operator left
        (rest.foldl (fun arrangement (later, value) => arrangement.extend later value) right) := by
  induction rest generalizing right with
  | nil => rfl
  | cons entry others inductionHypothesis =>
      have first : (node operator left right).extend entry.1 entry.2 =
          node operator left (right.extend entry.1 entry.2) := by
        rw [extend, if_pos (gives entry List.mem_cons_self)]
      rw [List.foldl_cons, List.foldl_cons]
      dsimp only
      rw [first]
      exact inductionHypothesis fun other later => gives other (List.mem_cons_of_mem entry later)

theorem extend_of_standsLeft {arrangement : Arrangement α} {later : Operator} (value : α)
    (stands : ∀ inner, arrangement.top? = some inner → standsLeft inner later) :
    arrangement.extend later value = node later arrangement (operand value) := by
  cases arrangement with
  | operand first => rfl
  | node operator left right =>
      rw [extend, standsLeft_iff_not_givesWay.mp (stands operator rfl)]
      rfl

/-- A proper arrangement is the one of its own row. -/
theorem ofRow_row {arrangement : Arrangement α} (proper : arrangement.Proper) :
    ofRow arrangement.row.1 arrangement.row.2 = arrangement := by
  induction arrangement with
  | operand value => rfl
  | node operator left right leftHypothesis rightHypothesis =>
      obtain ⟨leftProper, rightProper, leftStands, rightStands⟩ := proper
      have gives (entry : Operator × α) (member : entry ∈ right.row.2) :
          givesWay operator entry.1 = true := by
        cases right with
        | operand value => cases member
        | node inner _ _ =>
            have below := priority_le_of_mem_row rightProper rfl member
            rw [← standsRight_iff_givesWay]
            rcases rightStands inner rfl with less | ⟨same, right⟩
            · exact .inl (by omega)
            · rcases Nat.lt_or_eq_of_le below with less | equal
              · exact .inl (by omega)
              · exact .inr ⟨by omega, isRightAssociative_congr equal ▸ right⟩
      have leftFirst := leftHypothesis leftProper
      have rightNext := rightHypothesis rightProper
      rw [ofRow] at leftFirst rightNext ⊢
      rw [row, List.foldl_append, leftFirst, List.foldl_cons]
      dsimp only
      rw [extend_of_standsLeft right.row.1 leftStands, foldl_node gives, rightNext]

theorem eq_of_row_eq {first second : Arrangement α} (firstProper : first.Proper)
    (secondProper : second.Proper) (same : first.row = second.row) : first = second := by
  rw [← ofRow_row firstProper, same, ofRow_row secondProper]

/-! ### Operands of another type -/

def map (change : α → β) : Arrangement α → Arrangement β
  | operand value => operand (change value)
  | node operator left right => node operator (left.map change) (right.map change)

theorem extend_map (change : α → β) (arrangement : Arrangement α) (later : Operator) (value : α) :
    (arrangement.map change).extend later (change value) =
      (arrangement.extend later value).map change := by
  induction arrangement with
  | operand first => rfl
  | node operator left right _ inductionHypothesis =>
      rw [map, extend, extend]
      split
      next => rw [map, inductionHypothesis]
      next => rfl

theorem ofRow_map (change : α → β) (first : α) (rest : List (Operator × α)) :
    ofRow (change first) (rest.map fun entry => (entry.1, change entry.2)) =
      (ofRow first rest).map change := by
  have fold (arrangement : Arrangement α) :
      (rest.map fun entry => (entry.1, change entry.2)).foldl
          (fun arrangement (operator, value) => arrangement.extend operator value)
          (arrangement.map change) =
        (rest.foldl (fun arrangement (operator, value) => arrangement.extend operator value)
          arrangement).map change := by
    induction rest generalizing arrangement with
    | nil => rfl
    | cons entry others inductionHypothesis =>
        rw [List.map_cons, List.foldl_cons, List.foldl_cons]
        dsimp only
        rw [extend_map]
        exact inductionHypothesis _
  exact fold (operand first)

/-! ### Operands without their operators -/

def operands : Arrangement α → List α
  | operand value => [value]
  | node _ left right => left.operands ++ right.operands

theorem operands_eq_row (arrangement : Arrangement α) :
    arrangement.operands = arrangement.row.1 :: arrangement.row.2.map Prod.snd := by
  induction arrangement with
  | operand value => rfl
  | node operator left right leftHypothesis rightHypothesis =>
      simp [operands, row, leftHypothesis, rightHypothesis]

theorem operands_map (change : α → β) (arrangement : Arrangement α) :
    (arrangement.map change).operands = arrangement.operands.map change := by
  induction arrangement with
  | operand value => rfl
  | node operator left right leftHypothesis rightHypothesis =>
      simp [operands, map, leftHypothesis, rightHypothesis]

end Arrangement

end Worksheet.Grammar
