import Worksheet.Proofs.Expr.Evaluation

/-!
# Names of what is read

The names that are read with an expression are its own, from left to right.  Only where the
reading fails does it stop taking notice of names.
-/

namespace Worksheet

open Grammar

namespace Expr

variable {kind : Kind}

theorem names_negated {expr negative : Expr} (read : Expr.negated kind expr = .ok negative) :
    negative.names = expr.names := by
  cases expr with
  | binary operator left right =>
      rw [negated] at read
      split at read
      next => cases read
      next =>
        cases read
        rfl
  | _ =>
      cases read
      rfl

theorem names_minuses {count : Nat} {operand : Except ReadError Expr} {expr : Expr}
    (read : Expr.minuses kind count operand = .ok expr) :
    ∃ inner, operand = .ok inner ∧ expr.names = inner.names := by
  induction count generalizing expr with
  | zero => exact ⟨expr, read, rfl⟩
  | succ count inductionHypothesis =>
      cases taken : Expr.minuses kind count operand with
      | error error => simp [Expr.minuses, taken, Except.bind] at read
      | ok positive =>
          rw [Expr.minuses, taken] at read
          obtain ⟨inner, done, same⟩ := inductionHypothesis taken
          exact ⟨inner, done, (names_negated read).trans same⟩

theorem eq_of_combined {operator : Operator} {left right expr : Expr}
    (read : Expr.combined operator left right = .ok expr) :
    expr = .binary operator left right := by
  unfold Expr.combined at read
  split at read
  next => cases read
  next =>
    split at read
    next => cases read
    next =>
      cases read
      rfl

theorem names_ofArrangement {arrangement : Arrangement (Except ReadError Expr)} {expr : Expr}
    (read : Expr.ofArrangement arrangement = .ok expr) :
    ∃ (first : Expr) (rest : List (Operator × Expr)), arrangement.row = (.ok first, rest.map fun entry => (entry.1, .ok entry.2)) ∧
      expr.names = first.names ++ rest.flatMap fun entry => entry.2.names := by
  induction arrangement generalizing expr with
  | operand value => exact ⟨expr, [], congrArg (·, []) read, by simp⟩
  | node operator left right leftHypothesis rightHypothesis =>
      obtain ⟨low, leftRead, read⟩ := bind_eq_ok_iff.mp read
      obtain ⟨high, rightRead, read⟩ := bind_eq_ok_iff.mp read
      obtain ⟨first, before, leftRow, leftNames⟩ := leftHypothesis leftRead
      obtain ⟨second, after, rightRow, rightNames⟩ := rightHypothesis rightRead
      refine ⟨first, before ++ (operator, second) :: after, ?_, ?_⟩
      · simp [Arrangement.row, leftRow, rightRow]
      · simp [eq_of_combined read, names, leftNames, rightNames]

end Expr

namespace Grammar

mutual

theorem Primary.names_of_expr {kind : Kind} (primary : Primary) {expr : Expr}
    (read : primary.expr kind = .ok expr) : primary.names kind = expr.names := by
  match primary with
  | .number text =>
      rw [Primary.expr] at read
      split at read
      next =>
        cases read
        rfl
      next => cases read
  | .name text =>
      cases read
      rfl
  | .parentheses content => exact content.names_of_expr read

theorem Phrase.names_of_operands {kind : Kind} (phrase : Phrase) {first : Expr}
    {rest : List (Operator × Expr)}
    (read : phrase.operands kind = (.ok first, rest.map fun entry => (entry.1, .ok entry.2))) :
    phrase.names kind = first.names ++ rest.flatMap fun entry => entry.2.names := by
  match phrase with
  | .last minuses primary =>
      obtain ⟨inner, taken, same⟩ := Expr.names_minuses (congrArg Prod.fst read)
      have none := List.map_eq_nil_iff.mp (congrArg Prod.snd read).symm
      rw [Phrase.names, primary.names_of_expr taken, none, same]
      simp
  | .more minuses primary operator others =>
      obtain ⟨inner, taken, same⟩ := Expr.names_minuses (congrArg Prod.fst read)
      cases rest with
      | nil => cases congrArg Prod.snd read
      | cons entry rest =>
          have entries := congrArg Prod.snd read
          simp only [Phrase.operands, List.map_cons, List.cons.injEq, Prod.mk.injEq] at entries
          have later := others.names_of_operands (Prod.ext entries.1.2 entries.2)
          simp [Phrase.names, primary.names_of_expr taken, taken, later, same]

theorem Phrase.names_of_expr {kind : Kind} (phrase : Phrase) {expr : Expr}
    (read : phrase.expr kind = .ok expr) : phrase.names kind = expr.names := by
  obtain ⟨first, rest, row, names⟩ := Expr.names_ofArrangement read
  rw [Arrangement.row_ofRow] at row
  rw [names, phrase.names_of_operands row]

end

end Grammar

/-- All names of an expression are read with it, and no others. -/
theorem Expr.namesRead_of_read {kind : Kind} {text : List Char} {expr : Expr}
    (read : Expr.read kind text = .ok expr) : Expr.namesRead kind text = expr.names := by
  obtain ⟨phrase, found, read⟩ := bind_eq_ok_iff.mp read
  rw [Expr.namesRead, found]
  exact phrase.names_of_expr read

end Worksheet
