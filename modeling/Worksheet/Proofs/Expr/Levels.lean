import Worksheet.Expr.Read
import Worksheet.Proofs.Grammar.Precedence

/-!
# Levels of an expression

A level is a whole text or the content of one pair of parentheses.  Once its operands
are read, its operators alone decide whether it is an expression, and which one.
-/

namespace Worksheet

open Grammar

namespace Grammar.Arrangement

/-- The expression in which no operator has been refused. -/
def expr : Arrangement Expr → Expr
  | operand value => value
  | node operator left right => .binary operator left.expr right.expr

def Accepted : Arrangement Expr → Prop
  | operand _ => True
  | node operator left right =>
      left.Accepted ∧ right.Accepted ∧ left.expr.isAssignment = false ∧
        right.expr.isAssignment = false ∧ (operator = .assign → left.expr.isVariable = true)

end Grammar.Arrangement

namespace Expr

theorem isAssignment_binary (operator : Operator) (left right : Expr) :
    (binary operator left right).isAssignment = decide (operator = .assign) := by
  cases operator <;> rfl

/-! ### Applying the operators of an arrangement -/

theorem combined_eq_ok {operator : Operator} {left right : Expr}
    (leftFree : left.isAssignment = false) (rightFree : right.isAssignment = false)
    (target : operator = .assign → left.isVariable = true) :
    combined operator left right = .ok (.binary operator left right) := by
  rw [combined, leftFree, rightFree]
  by_cases assign : operator = .assign
  · simp [assign, target assign]
  · simp [assign]

theorem combined_eq_error {operator : Operator} {left right : Expr}
    (refused : ¬(left.isAssignment = false ∧ right.isAssignment = false ∧
      (operator = .assign → left.isVariable = true))) :
    ∃ why, combined operator left right = .error (.malformedAssignment why) := by
  rw [combined]
  split
  next => exact ⟨_, rfl⟩
  next free =>
    simp only [Bool.or_eq_true, not_or, Bool.not_eq_true] at free
    split
    next => exact ⟨_, rfl⟩
    next target =>
      refine absurd ⟨free.1, free.2, fun assign => ?_⟩ refused
      simpa [assign] using target

theorem ofArrangement_of_accepted {arrangement : Arrangement Expr}
    (accepted : arrangement.Accepted) :
    ofArrangement (arrangement.map .ok) = .ok arrangement.expr := by
  induction arrangement with
  | operand value => rfl
  | node operator left right leftHypothesis rightHypothesis =>
      obtain ⟨leftAccepted, rightAccepted, leftFree, rightFree, target⟩ := accepted
      rw [Arrangement.map, ofArrangement, leftHypothesis leftAccepted,
        rightHypothesis rightAccepted]
      exact combined_eq_ok leftFree rightFree target

theorem ofArrangement_of_not_accepted {arrangement : Arrangement Expr}
    (refused : ¬arrangement.Accepted) :
    ∃ why, ofArrangement (arrangement.map .ok) = .error (.malformedAssignment why) := by
  induction arrangement with
  | operand value => exact absurd trivial refused
  | node operator left right leftHypothesis rightHypothesis =>
      rw [Arrangement.map, ofArrangement]
      by_cases leftAccepted : left.Accepted
      · by_cases rightAccepted : right.Accepted
        · rw [ofArrangement_of_accepted leftAccepted, ofArrangement_of_accepted rightAccepted]
          refine combined_eq_error fun free => refused ?_
          exact ⟨leftAccepted, rightAccepted, free⟩
        · obtain ⟨why, failed⟩ := rightHypothesis rightAccepted
          rw [ofArrangement_of_accepted leftAccepted, failed]
          exact ⟨why, rfl⟩
      · obtain ⟨why, failed⟩ := leftHypothesis leftAccepted
        rw [failed]
        exact ⟨why, rfl⟩

end Expr

/-! ### Which rows are accepted -/

namespace Grammar.Arrangement

/-- Neither an operator nor an operand of the row is an assignment. -/
def PlainRow (first : Expr) (rest : List (Operator × Expr)) : Prop :=
  first.isAssignment = false ∧
    ∀ entry ∈ rest, entry.1 ≠ .assign ∧ entry.2.isAssignment = false

theorem plainRow_of_accepted {arrangement : Arrangement Expr} (accepted : arrangement.Accepted)
    (plain : arrangement.expr.isAssignment = false) :
    PlainRow arrangement.row.1 arrangement.row.2 := by
  induction arrangement with
  | operand value => exact ⟨plain, by simp [row]⟩
  | node operator left right leftHypothesis rightHypothesis =>
      obtain ⟨leftAccepted, rightAccepted, leftFree, rightFree, -⟩ := accepted
      obtain ⟨first, before⟩ := leftHypothesis leftAccepted leftFree
      obtain ⟨next, after⟩ := rightHypothesis rightAccepted rightFree
      have other : operator ≠ .assign := by
        simpa [expr, Expr.isAssignment_binary] using plain
      refine ⟨first, fun entry member => ?_⟩
      rcases List.mem_append.mp member with inside | others
      · exact before entry inside
      · rcases List.mem_cons.mp others with rfl | inside
        · exact ⟨other, next⟩
        · exact after entry inside

theorem accepted_of_plainRow {arrangement : Arrangement Expr}
    (plain : PlainRow arrangement.row.1 arrangement.row.2) :
    arrangement.Accepted ∧ arrangement.expr.isAssignment = false := by
  induction arrangement with
  | operand value => exact ⟨trivial, plain.1⟩
  | node operator left right leftHypothesis rightHypothesis =>
      obtain ⟨first, others⟩ := plain
      have ⟨leftAccepted, leftFree⟩ := leftHypothesis
        ⟨first, fun entry member => others entry (List.mem_append_left _ member)⟩
      have here := others (operator, right.row.1) (List.mem_append_right _ List.mem_cons_self)
      have ⟨rightAccepted, rightFree⟩ := rightHypothesis
        ⟨here.2, fun entry member =>
          others entry (List.mem_append_right _ (List.mem_cons_of_mem _ member))⟩
      refine ⟨⟨leftAccepted, rightAccepted, leftFree, rightFree, fun assign => ?_⟩, ?_⟩
      · exact absurd assign here.1
      · simp [expr, Expr.isAssignment_binary, here.1]

/-- An assignment binds least, so that all the rest of the row is its source. -/
theorem ofRow_assign {target operand : Expr} {others : List (Operator × Expr)}
    (plain : PlainRow operand others) :
    ofRow target ((.assign, operand) :: others) =
      node .assign (.operand target) (ofRow operand others) := by
  refine eq_of_row_eq (proper_ofRow _ _) ⟨trivial, proper_ofRow _ _, ?_, ?_⟩ ?_
  · intro inner top
    cases top
  · intro inner top
    have inside : ∃ value, (inner, value) ∈ others := by
      have entries := row_ofRow operand others
      cases made : ofRow operand others with
      | operand value =>
          rw [made] at top
          cases top
      | node operator left right =>
          rw [made] at top entries
          cases top
          have member : (inner, right.row.1) ∈ (node inner left right).row.2 :=
            List.mem_append_right _ List.mem_cons_self
          rw [entries] at member
          exact ⟨right.row.1, member⟩
    obtain ⟨value, member⟩ := inside
    have other := (plain.2 _ member).1
    left
    cases inner <;> first | exact absurd rfl other | exact Nat.zero_lt_succ _
  · rw [row_ofRow, row, row_ofRow]
    rfl

theorem accepted_ofRow_iff (first : Expr) (rest : List (Operator × Expr)) :
    (ofRow first rest).Accepted ↔
      rest = [] ∨ PlainRow first rest ∨
        ∃ source others, rest = (.assign, source) :: others ∧ first.isVariable = true ∧
          PlainRow source others := by
  have entries := row_ofRow first rest
  constructor
  · intro accepted
    cases plain : (ofRow first rest).expr.isAssignment with
    | false =>
        right
        left
        have found := plainRow_of_accepted accepted plain
        rwa [entries] at found
    | true =>
        cases made : ofRow first rest with
        | operand value =>
            left
            rw [made] at entries
            exact (congrArg Prod.snd entries).symm
        | node operator left right =>
            rw [made] at accepted plain entries
            obtain ⟨leftAccepted, rightAccepted, leftFree, rightFree, target⟩ := accepted
            have assign : operator = .assign := by
              simpa [expr, Expr.isAssignment_binary] using plain
            have named := target assign
            right
            right
            -- The target is a single operand, so the rest of the row is the source.
            cases left with
            | node _ _ _ => cases named
            | operand value =>
                obtain ⟨rfl, rfl⟩ := Prod.mk.inj entries
                subst assign
                exact ⟨right.row.1, right.row.2, rfl, named,
                  plainRow_of_accepted rightAccepted rightFree⟩
  · rintro (rfl | plain | ⟨source, others, rfl, named, plain⟩)
    · trivial
    · refine (accepted_of_plainRow ?_).1
      rwa [entries]
    · rw [ofRow_assign plain]
      have ⟨accepted, free⟩ : (ofRow source others).Accepted ∧ _ := accepted_of_plainRow (by
        rwa [row_ofRow])
      refine ⟨trivial, accepted, ?_, free, fun _ => named⟩
      cases first with
      | «variable» name => rfl
      | _ => cases named

theorem plainRow_iff {first : Expr} {rest : List (Operator × Expr)} :
    PlainRow first rest ↔ (∀ entry ∈ rest, entry.1 ≠ .assign) ∧
      ∀ operand ∈ first :: rest.map Prod.snd, operand.isAssignment = false := by
  simp only [PlainRow, forall_and, List.forall_mem_cons, List.forall_mem_map]
  constructor
  · intro ⟨start, operators, operands⟩
    exact ⟨operators, start, operands⟩
  · intro ⟨operators, start, operands⟩
    exact ⟨start, operators, operands⟩

theorem assignedRow_iff {first : Expr} {rest : List (Operator × Expr)} :
    (∃ source others, rest = (.assign, source) :: others ∧ first.isVariable = true ∧
      PlainRow source others) ↔
    (rest.head?.map Prod.fst = some .assign ∧ ∀ entry ∈ rest.tail, entry.1 ≠ .assign) ∧
      first.isVariable = true ∧
      ∀ operand ∈ first :: rest.map Prod.snd, operand.isAssignment = false := by
  constructor
  · rintro ⟨source, others, rfl, named, plain⟩
    obtain ⟨operators, operands⟩ := plainRow_iff.mp plain
    have free : first.isAssignment = false := by
      cases first with
      | «variable» name => rfl
      | _ => cases named
    exact ⟨⟨rfl, operators⟩, named, List.forall_mem_cons.mpr ⟨free, operands⟩⟩
  · rintro ⟨⟨head, operators⟩, named, operands⟩
    cases rest with
    | nil => cases head
    | cons entry others =>
        obtain ⟨operator, source⟩ := entry
        cases head
        have ⟨_, later⟩ := List.forall_mem_cons.mp operands
        exact ⟨source, others, rfl, named, plainRow_iff.mpr ⟨operators, later⟩⟩

end Grammar.Arrangement

namespace Grammar.Phrase

variable {kind : Kind} {phrase : Phrase} {first : Expr} {rest : List (Operator × Expr)}

theorem expr_eq_ofArrangement
    (read : phrase.operands kind = (.ok first, rest.map fun entry => (entry.1, .ok entry.2))) :
    phrase.expr kind = Expr.ofArrangement ((Arrangement.ofRow first rest).map .ok) := by
  rw [Phrase.expr, read, ← Arrangement.ofRow_map]

/-- A level whose operands are read is an expression if its arrangement is accepted. -/
theorem exists_expr_iff
    (read : phrase.operands kind = (.ok first, rest.map fun entry => (entry.1, .ok entry.2))) :
    (∃ expr, phrase.expr kind = .ok expr) ↔ (Arrangement.ofRow first rest).Accepted := by
  rw [expr_eq_ofArrangement read]
  constructor
  · rintro ⟨expr, found⟩
    by_cases accepted : (Arrangement.ofRow first rest).Accepted
    · exact accepted
    · obtain ⟨why, failed⟩ := Expr.ofArrangement_of_not_accepted accepted
      rw [failed] at found
      cases found
  · intro accepted
    exact ⟨_, Expr.ofArrangement_of_accepted accepted⟩

/-- A level whose operands are read is an expression if it has a single operand, or no
assignment, or assigns to a variable what is otherwise free of assignments.  Its
operators are arranged in the only proper way. -/
theorem expr_of_operands (kind : Kind) (phrase : Phrase) (first : Expr)
    (rest : List (Operator × Expr))
    (read : phrase.operands kind = (.ok first, rest.map fun entry => (entry.1, .ok entry.2))) :
    (∀ text, Phrase.read text = .ok phrase → Expr.read kind text = phrase.expr kind) ∧
    (Primary.parentheses phrase).expr kind = phrase.expr kind ∧
    ((∃ expr, phrase.expr kind = .ok expr) ↔
      rest = [] ∨
      (∀ entry ∈ rest, entry.1 ≠ .assign) ∧
        (∀ operand ∈ first :: rest.map Prod.snd, operand.isAssignment = false) ∨
      (rest.head?.map Prod.fst = some .assign ∧ ∀ entry ∈ rest.tail, entry.1 ≠ .assign) ∧
        first.isVariable = true ∧
        ∀ operand ∈ first :: rest.map Prod.snd, operand.isAssignment = false) ∧
    ((¬∃ expr, phrase.expr kind = .ok expr) →
      ∃ why, phrase.expr kind = .error (.malformedAssignment why)) ∧
    ∀ expr, phrase.expr kind = .ok expr →
      ∃ arrangement : Arrangement Expr, arrangement.expr = expr ∧
        arrangement.row = (first, rest) ∧ arrangement.Proper ∧
        ∀ other : Arrangement Expr, other.row = (first, rest) → other.Proper →
          other = arrangement := by
  have applied := expr_eq_ofArrangement read
  have accepted_iff := exists_expr_iff read
  refine ⟨fun text found => ?_, ?_, ?_, ?_, ?_⟩
  · rw [Expr.read, found]
    rfl
  · rw [Primary.expr, Phrase.expr]
  · rw [accepted_iff, Arrangement.accepted_ofRow_iff]
    apply or_congr_right
    exact or_congr Arrangement.plainRow_iff Arrangement.assignedRow_iff
  · intro refused
    rw [applied]
    exact Expr.ofArrangement_of_not_accepted (mt accepted_iff.mpr refused)
  · intro expr found
    have accepted := accepted_iff.mp ⟨expr, found⟩
    rw [applied, Expr.ofArrangement_of_accepted accepted] at found
    have entries := Arrangement.row_ofRow first rest
    have proper := Arrangement.proper_ofRow first rest
    refine ⟨Arrangement.ofRow first rest, Except.ok.inj found, entries, proper, ?_⟩
    intro other same otherProper
    exact Arrangement.eq_of_row_eq otherProper proper (same.trans entries.symm)

/-- Powers associate to the right, also in the source of an assignment. -/
theorem expr_of_operands_power :
    let phrase : Phrase :=
      .more 0 (.name ['a']) .assign (.more 0 (.number ['2']) .power
        (.more 0 (.number ['3']) .power (.last 0 (.name ['b']))))
    phrase.operands .int = (.ok (.variable "a"), [(.assign, .ok (.number (.int 2))),
      (.power, .ok (.number (.int 3))), (.power, .ok (.variable "b"))]) ∧
    ∃ expr, phrase.expr .int = .ok expr :=
  ⟨rfl, (expr_of_operands .int _ (.variable "a")
    [(.assign, .number (.int 2)), (.power, .number (.int 3)), (.power, .variable "b")]
    rfl).2.2.1.mpr (.inr (.inr (by decide)))⟩

end Grammar.Phrase

end Worksheet
