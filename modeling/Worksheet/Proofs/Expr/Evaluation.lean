import Worksheet.Dialect
import Worksheet.Forest.Value
import Worksheet.Proofs.Expr.Reading
import Worksheet.Proofs.Forest.Rendering

/-!
# Values of expressions

The value of a tree depends on its expression and on the variables alone.  Entering an
expression registers its names, and an assignment stores the value of its source.
-/

namespace Worksheet

open Grammar

/-! ### Registering names -/

namespace Variables

variable {table : Variables}

theorem value?_put (table : Variables) (name other : String) (value : Option Number) :
    (table.put name value).value? other = if other = name then value else table.value? other := by
  rw [value?, find?_put, value?]
  split <;> rfl

theorem find?_declareAll (table : Variables) (names : List String) (other : String) :
    (table.declareAll names).find? other =
      if other ∈ names then some ((table.find? other).getD none) else table.find? other := by
  induction names generalizing table with
  | nil => simp [declareAll]
  | cons name rest inductionHypothesis =>
      have step : (table.declareAll (name :: rest)) = (table.declare name).declareAll rest := rfl
      rw [step, inductionHypothesis, find?_declare]
      by_cases same : other = name
      · subst same
        by_cases later : other ∈ rest <;> simp [later]
      · by_cases later : other ∈ rest <;> simp [later, same]

@[simp]
theorem value?_declareAll (table : Variables) (names : List String) (other : String) :
    (table.declareAll names).value? other = table.value? other := by
  rw [value?, find?_declareAll, value?]
  split
  next => cases table.find? other <;> rfl
  next => rfl

theorem declareAll_append (table : Variables) (first second : List String) :
    table.declareAll (first ++ second) = (table.declareAll first).declareAll second := by
  simp [declareAll]

theorem declareAll_declareAll (table : Variables) (names : List String) :
    (table.declareAll names).declareAll names = table.declareAll names := by
  apply eq_of_find?
  intro name
  rw [find?_declareAll, find?_declareAll]
  split <;> simp

theorem resolve_none (table : Variables) (name : String) :
    ∃ value, table.resolve name none = .ok (value, table.declare name) := by
  cases found : table.find? name with
  | none => exact ⟨none, by simp [resolve, declare, isRegistered, clear, found]⟩
  | some settled =>
      refine ⟨settled, ?_⟩
      cases settled <;> simp [resolve, declare, isRegistered, found]

end Variables

/-! ### Evaluating expressions -/

namespace Expr

def hasValue (table : Variables) : Expr → Bool
  | number _ => true
  | .variable name => (table.value? name).isSome
  | binary _ left right => left.hasValue table && right.hasValue table

/-- The value of an expression without assignments. -/
def evaluate (table : Variables) : Expr → Except Fault Number
  | number value => .ok value
  | .variable name =>
      match table.value? name with
      | some value => .ok value
      | none => .error .noValue
  | binary operator left right => do
      let first ← left.evaluate table
      let second ← right.evaluate table
      Number.operate operator first second

def tryValue (table : Variables) (expr : Expr) : Except Fault (Option Number) :=
  if expr.hasValue table then (expr.evaluate table).map some else .ok none

end Expr

theorem Floating.tryValue_spelled {F : Type} [Floating F] [LawfulFloating F] {make : F → Number}
    (divides : ∀ left right,
      Number.operate .divide (make left) (make right) = .ok (make (left / right)))
    (value : F) (table : Variables) :
    (spelled make value).tryValue table = .ok (some (make value)) := by
  rw [spelled]
  split
  next => rfl
  next infinite =>
    have quotient := divides (dividend value) 0.0
    rw [dividend_div_zero value (Bool.eq_false_iff.mpr infinite)] at quotient
    exact congrArg (Except.map some) quotient

theorem Number.tryValue_spelled (value : Number) (table : Variables) :
    value.spelled.tryValue table = .ok (some value) := by
  cases value with
  | int value => rfl
  | float value => exact Floating.tryValue_spelled (fun _ _ => rfl) value table
  | double value => exact Floating.tryValue_spelled (fun _ _ => rfl) value table

theorem Floating.names_spelled {F : Type} [Floating F] (make : F → Number) (value : F) :
    (spelled make value).names = [] := by
  rw [spelled]
  split <;> rfl

theorem Number.names_spelled (value : Number) : value.spelled.names = [] := by
  cases value with
  | int value => rfl
  | float value => exact Floating.names_spelled float value
  | double value => exact Floating.names_spelled double value

namespace Tree

variable {tree : Tree} {expr : Expr}

theorem hasValue_of_expr? (found : tree.expr? = some expr) (plain : expr.isPlain = true)
    (table : Variables) : tree.hasValue table = expr.hasValue table := by
  induction tree generalizing expr with
  | constant id value =>
      cases found
      rfl
  | «variable» id name =>
      cases found
      rfl
  | binary id operator left right leftHypothesis rightHypothesis =>
      obtain ⟨first, second, leftFound, rightFound, rfl⟩ := expr?_binary_eq_some_iff.mp found
      simp only [Expr.isPlain, Bool.and_eq_true, decide_eq_true_eq] at plain
      rw [hasValue, Expr.hasValue, leftHypothesis leftFound plain.1.2,
        rightHypothesis rightFound plain.2]
      exact plain.1.1
  | _ => cases found

/-- Evaluating a tree without assignments changes no variable. -/
theorem evaluate_of_expr? (found : tree.expr? = some expr) (plain : expr.isPlain = true)
    (table : Variables) : tree.evaluate table = (expr.evaluate table, table) := by
  induction tree generalizing expr with
  | constant id value =>
      cases found
      rfl
  | «variable» id name =>
      cases found
      rw [evaluate, Expr.evaluate]
      cases table.value? name <;> rfl
  | binary id operator left right leftHypothesis rightHypothesis =>
      obtain ⟨first, second, leftFound, rightFound, rfl⟩ := expr?_binary_eq_some_iff.mp found
      simp only [Expr.isPlain, Bool.and_eq_true, decide_eq_true_eq] at plain
      rw [evaluate, isVacant_of_expr? leftFound, isVacant_of_expr? rightFound, if_neg (by simp),
        if_neg plain.1.1, leftHypothesis leftFound plain.1.2, Expr.evaluate]
      cases first.evaluate table with
      | error fault => rfl
      | ok low =>
          dsimp only
          rw [rightHypothesis rightFound plain.2]
          cases second.evaluate table <;> rfl
  | _ => cases found

end Tree

/-! ### Entering expressions -/

/-- The variables after an expression has been entered, or the fault for which it is
not. -/
def Variables.entered (table : Variables) (expr : Expr) : Except Fault Variables :=
  let declared := table.declareAll expr.names
  match expr with
  | .binary .assign (.variable name) source =>
      (source.tryValue declared).map fun value => declared.put name value
  | _ => .ok declared

def Variables.replay (table : Variables) (exprs : List Expr) : Except Fault Variables :=
  exprs.foldlM Variables.entered table

theorem Variables.entered_assignment (table : Variables) (name : String) (source : Expr) :
    table.entered (.binary .assign (.variable name) source) =
      (source.tryValue (table.declareAll (name :: source.names))).map
        fun value => (table.declareAll (name :: source.names)).put name value :=
  rfl

theorem Variables.entered_of_isPlain {expr : Expr} (plain : expr.isPlain = true)
    (table : Variables) : table.entered expr = .ok (table.declareAll expr.names) := by
  cases expr with
  | binary operator left right =>
      simp only [Expr.isPlain, Bool.and_eq_true, decide_eq_true_eq] at plain
      rw [entered]
      · intro name source same
        cases same
        exact plain.1.1 rfl
  | _ => rfl

theorem Expr.assignment_of_isLawful {expr : Expr} (lawful : expr.isLawful = true)
    (plain : ¬expr.isPlain = true) :
    ∃ name source, expr = .binary .assign (.variable name) source ∧ source.isPlain = true := by
  cases expr with
  | binary operator left right =>
      simp only [Expr.isLawful, Bool.and_eq_true, Bool.or_eq_true, decide_eq_true_eq] at lawful
      obtain ⟨⟨target, leftPlain⟩, rightPlain⟩ := lawful
      by_cases assign : operator = .assign
      · subst assign
        cases left with
        | «variable» name => exact ⟨name, right, rfl, rightPlain⟩
        | _ => simp [Expr.isVariable] at target
      · exact absurd (by simp [Expr.isPlain, assign, leftPlain, rightPlain]) plain
  | _ => exact absurd rfl plain

theorem Variables.entered_declareAll (table : Variables) (expr : Expr) :
    (table.declareAll expr.names).entered expr = table.entered expr := by
  unfold entered
  rw [declareAll_declareAll]

/-! ### Kinds of values -/

theorem Number.kind_of_operate {operator : Operator} {left right value : Number}
    (same : left.kind = right.kind) (done : Number.operate operator left right = .ok value) :
    value.kind = left.kind := by
  cases left with
  | int left =>
      cases right with
      | int right =>
          rw [Number.operate] at done
          cases computed : Integer.operate operator left right with
          | error fault =>
              rw [computed] at done
              cases done
          | ok number =>
              rw [computed] at done
              cases done
              rfl
      | _ => cases same
  | float left =>
      cases right with
      | float right =>
          cases done
          rfl
      | _ => cases same
  | double left =>
      cases right with
      | double right =>
          cases done
          rfl
      | _ => cases same

/-- The names of the table are names, and its values are of the kind. -/
structure Variables.Sound (kind : Kind) (table : Variables) : Prop where
  isName_registered : ∀ name, table.isRegistered name = true → isName name.toList = true
  kind_value : ∀ name value, table.value? name = some value → value.kind = kind

theorem Expr.kind_of_evaluate {kind : Kind} {table : Variables} (sound : table.Sound kind)
    {expr : Expr} (typed : ∀ value ∈ expr.constants, value.kind = kind) {value : Number}
    (done : expr.evaluate table = .ok value) : value.kind = kind := by
  induction expr generalizing value with
  | number constant =>
      cases done
      exact typed _ List.mem_cons_self
  | «variable» name =>
      rw [evaluate] at done
      split at done
      next known =>
        cases done
        exact sound.kind_value name value known
      next => cases done
  | binary operator left right leftHypothesis rightHypothesis =>
      obtain ⟨first, leftDone, done⟩ := bind_eq_ok_iff.mp done
      obtain ⟨second, rightDone, done⟩ := bind_eq_ok_iff.mp done
      have low := leftHypothesis (fun value member => typed value (List.mem_append_left _ member))
        leftDone
      have high := rightHypothesis
        (fun value member => typed value (List.mem_append_right _ member)) rightDone
      rw [Number.kind_of_operate (low.trans high.symm) done, low]

theorem Expr.kind_of_tryValue {kind : Kind} {table : Variables} (sound : table.Sound kind)
    {expr : Expr} (typed : ∀ value ∈ expr.constants, value.kind = kind) {value : Number}
    (done : expr.tryValue table = .ok (some value)) : value.kind = kind := by
  rw [tryValue] at done
  split at done
  next =>
    cases evaluated : expr.evaluate table with
    | error fault =>
        rw [evaluated] at done
        cases done
    | ok number =>
        rw [evaluated] at done
        cases done
        exact kind_of_evaluate sound typed evaluated
  next => cases done

namespace Variables

variable {kind : Kind} {table : Variables}

theorem sound_empty (kind : Kind) : empty.Sound kind := by
  constructor
  · intro name registered
    cases registered
  · intro name value found
    cases found

theorem Sound.declareAll (sound : table.Sound kind) {names : List String}
    (named : ∀ name ∈ names, isName name.toList = true) : (table.declareAll names).Sound kind := by
  constructor
  · intro name registered
    rw [isRegistered, find?_declareAll] at registered
    split at registered
    next member => exact named name member
    next => exact sound.isName_registered name registered
  · intro name value found
    rw [value?_declareAll] at found
    exact sound.kind_value name value found

theorem Sound.put (sound : table.Sound kind) {name : String} {value : Option Number}
    (named : isName name.toList = true)
    (typed : ∀ number, value = some number → number.kind = kind) :
    (table.put name value).Sound kind := by
  constructor
  · intro other registered
    rw [isRegistered, find?_put] at registered
    split at registered
    next same => rwa [same]
    next => exact sound.isName_registered other registered
  · intro other number found
    rw [value?_put] at found
    split at found
    next => exact typed number found
    next => exact sound.kind_value other number found

theorem Sound.filter (sound : table.Sound kind) (keep : String → Bool) :
    (table.filter keep).Sound kind := by
  constructor
  · intro name registered
    rw [isRegistered, find?_filter] at registered
    split at registered
    next => exact sound.isName_registered name registered
    next => cases registered
  · intro name value found
    rw [value?, find?_filter] at found
    split at found
    next => exact sound.kind_value name value found
    next => cases found

/-- Entering a readable expression keeps a table sound. -/
theorem Sound.entered (sound : table.Sound kind) {expr : Expr} (readable : expr.Readable kind)
    {after : Variables} (done : table.entered expr = .ok after) : after.Sound kind := by
  have declared := sound.declareAll readable.isName_names
  unfold Variables.entered at done
  dsimp only at done
  split at done
  next name source =>
    cases tried : source.tryValue
        (table.declareAll (Expr.binary .assign (.variable name) source).names) with
    | error fault =>
        rw [tried] at done
        cases done
    | ok value =>
        rw [tried] at done
        cases done
        apply declared.put
        · exact readable.isName_names name List.mem_cons_self
        · intro number same
          rw [same] at tried
          exact Expr.kind_of_tryValue declared (fun value member =>
            readable.kind_constants value (List.mem_append_right _ member)) tried
  next =>
    cases done
    exact declared

end Variables

end Worksheet
