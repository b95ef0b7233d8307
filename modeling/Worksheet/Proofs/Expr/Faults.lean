import Worksheet.Proofs.Expr.Evaluation

/-!
# Faults of expressions

With numbers of one kind only a missing value or a division by zero can end an evaluation,
and a division by zero only among integers.  Entering an expression looks for a value only
where there is one, so that nothing but the division is left.
-/

namespace Worksheet

open Grammar

/-! ### Arithmetic -/

theorem Integer.fault_of_operate {operator : Operator} {left right : Int32} {fault : Fault}
    (refused : Integer.operate operator left right = .error fault) : fault = .divisionByZero := by
  cases operator with
  | divide =>
      rw [operate] at refused
      split at refused
      next =>
        cases refused
        rfl
      next => cases refused
  | power =>
      rw [operate] at refused
      split at refused
      next => cases refused
      next =>
        unfold inversePower at refused
        repeat' split at refused
        all_goals cases refused
        rfl
  | _ => cases refused

theorem Number.fault_of_operate {operator : Operator} {left right : Number} {fault : Fault}
    (same : left.kind = right.kind) (refused : Number.operate operator left right = .error fault) :
    fault = .divisionByZero ∧ left.kind = .int := by
  cases left with
  | int left =>
      cases right with
      | int right =>
          rw [operate] at refused
          cases computed : Integer.operate operator left right with
          | ok number =>
              rw [computed] at refused
              cases refused
          | error cause =>
              rw [computed] at refused
              cases refused
              exact ⟨Integer.fault_of_operate computed, rfl⟩
      | _ => cases same
  | float left =>
      cases right with
      | float right => cases refused
      | _ => cases same
  | double left =>
      cases right with
      | double right => cases refused
      | _ => cases same

theorem Number.fault_of_operate_cases {operator : Operator} {left right : Number} {fault : Fault}
    (refused : Number.operate operator left right = .error fault) :
    fault = .divisionByZero ∨ fault = .mixedKinds left.kind right.kind := by
  by_cases same : left.kind = right.kind
  · exact .inl (fault_of_operate same refused).1
  · refine .inr ?_
    cases left <;> cases right <;> first | exact absurd rfl same | (cases refused; rfl)

/-! ### Evaluation -/

namespace Expr

variable {kind : Kind} {table : Variables} {expr : Expr} {fault : Fault}

/-- An expression whose names all have values never lacks one. -/
theorem fault_of_evaluate (sound : table.Sound kind)
    (typed : ∀ value ∈ expr.constants, value.kind = kind)
    (refused : expr.evaluate table = .error fault) :
    fault = .noValue ∧ expr.hasValue table = false ∨ fault = .divisionByZero ∧ kind = .int := by
  induction expr with
  | number value => cases refused
  | «variable» name =>
      rw [evaluate] at refused
      split at refused
      next => cases refused
      next missing =>
        cases refused
        exact .inl ⟨rfl, by rw [hasValue, missing, Option.isSome_none]⟩
  | binary operator left right leftHypothesis rightHypothesis =>
      have leftTyped : ∀ value ∈ left.constants, value.kind = kind :=
        fun value member => typed value (List.mem_append_left _ member)
      have rightTyped : ∀ value ∈ right.constants, value.kind = kind :=
        fun value member => typed value (List.mem_append_right _ member)
      rw [evaluate] at refused
      -- The first operand that fails passes its fault on; the operator adds only a division.
      cases leftDone : left.evaluate table with
      | error cause =>
          rw [leftDone] at refused
          cases refused
          apply (leftHypothesis leftTyped leftDone).imp_left
          rintro ⟨same, missing⟩
          exact ⟨same, by rw [hasValue, missing, Bool.false_and]⟩
      | ok first =>
          rw [leftDone] at refused
          cases rightDone : right.evaluate table with
          | error cause =>
              rw [rightDone] at refused
              cases refused
              apply (rightHypothesis rightTyped rightDone).imp_left
              rintro ⟨same, missing⟩
              exact ⟨same, by rw [hasValue, missing, Bool.and_false]⟩
          | ok second =>
              rw [rightDone] at refused
              have low := kind_of_evaluate sound leftTyped leftDone
              have high := kind_of_evaluate sound rightTyped rightDone
              obtain ⟨divided, whole⟩ := Number.fault_of_operate (low.trans high.symm) refused
              exact .inr ⟨divided, low.symm.trans whole⟩

theorem fault_of_tryValue (sound : table.Sound kind)
    (typed : ∀ value ∈ expr.constants, value.kind = kind)
    (refused : expr.tryValue table = .error fault) : fault = .divisionByZero ∧ kind = .int := by
  rw [tryValue] at refused
  split at refused
  next valued =>
    cases evaluated : expr.evaluate table with
    | ok value =>
        rw [evaluated] at refused
        cases refused
    | error cause =>
        rw [evaluated] at refused
        cases refused
        apply (fault_of_evaluate sound typed evaluated).resolve_left
        rintro ⟨-, missing⟩
        rw [valued] at missing
        cases missing
  next => cases refused

/-! ### Values depend on the variables that are named -/

variable {table' : Variables}

theorem hasValue_congr (same : ∀ name ∈ expr.names, table'.value? name = table.value? name) :
    expr.hasValue table' = expr.hasValue table := by
  induction expr with
  | number value => rfl
  | «variable» name => rw [hasValue, hasValue, same name List.mem_cons_self]
  | binary operator left right leftHypothesis rightHypothesis =>
      rw [hasValue, hasValue,
        leftHypothesis fun name member => same name (List.mem_append_left _ member),
        rightHypothesis fun name member => same name (List.mem_append_right _ member)]

theorem evaluate_congr (same : ∀ name ∈ expr.names, table'.value? name = table.value? name) :
    expr.evaluate table' = expr.evaluate table := by
  induction expr with
  | number value => rfl
  | «variable» name => rw [evaluate, evaluate, same name List.mem_cons_self]
  | binary operator left right leftHypothesis rightHypothesis =>
      rw [evaluate, evaluate,
        leftHypothesis fun name member => same name (List.mem_append_left _ member),
        rightHypothesis fun name member => same name (List.mem_append_right _ member)]

theorem tryValue_congr (same : ∀ name ∈ expr.names, table'.value? name = table.value? name) :
    expr.tryValue table' = expr.tryValue table := by
  rw [tryValue, tryValue, hasValue_congr same, evaluate_congr same]

end Expr

/-! ### Entering -/

theorem Variables.fault_of_entered {kind : Kind} {table : Variables} (sound : table.Sound kind)
    {expr : Expr} (readable : expr.Readable kind) {fault : Fault}
    (refused : table.entered expr = .error fault) : fault = .divisionByZero ∧ kind = .int := by
  by_cases plain : expr.isPlain = true
  · rw [entered_of_isPlain plain] at refused
    cases refused
  · obtain ⟨name, source, rfl, -⟩ := Expr.assignment_of_isLawful readable.lawful plain
    rw [entered_assignment] at refused
    cases tried : source.tryValue (table.declareAll (name :: source.names)) with
    | ok value =>
        rw [tried] at refused
        cases refused
    | error cause =>
        rw [tried] at refused
        cases refused
        exact Expr.fault_of_tryValue (sound.declareAll readable.isName_names)
          (fun value member => readable.kind_constants value (List.mem_append_right _ member)) tried

end Worksheet
