import Worksheet.Proofs.Expr.Faults

/-!
# Replaying expressions

A replay registers the names of its expressions and changes the values of no variables but
those that are assigned to.  Replaying the same expressions again changes nothing more if
no source comes before the assignments on which it depends.
-/

namespace Worksheet

namespace Expr

def target? : Expr → Option String
  | .binary .assign (.variable name) _ => some name
  | _ => none

end Expr

namespace Variables

variable {table after : Variables} {expr : Expr} {exprs : List Expr} {name : String}

theorem eq_of_value? {left right : Variables}
    (registered : ∀ name, left.isRegistered name = right.isRegistered name)
    (values : ∀ name, left.value? name = right.value? name) : left = right := by
  apply eq_of_find?
  intro name
  have known := registered name
  have value := values name
  rw [isRegistered, isRegistered] at known
  rw [value?, value?] at value
  cases leftFound : left.find? name with
  | none =>
      cases rightFound : right.find? name with
      | none => rfl
      | some _ => simp [leftFound, rightFound] at known
  | some _ =>
      cases rightFound : right.find? name with
      | none => simp [leftFound, rightFound] at known
      | some _ =>
          rw [leftFound, rightFound] at value
          exact congrArg some value

/-! ### Entering one expression -/

theorem entered_of_target? (free : expr.target? = none) :
    table.entered expr = .ok (table.declareAll expr.names) := by
  unfold entered
  dsimp only
  split
  next => cases free
  next => rfl

/-- Entering registers the names, and if it assigns, it does nothing else but that. -/
theorem entered_cases (entered : table.entered expr = .ok after) :
    expr.target? = none ∧ after = table.declareAll expr.names ∨
    ∃ name source value, expr = .binary .assign (.variable name) source ∧
      source.tryValue (table.declareAll expr.names) = .ok value ∧
      after = (table.declareAll expr.names).put name value := by
  cases target : expr.target? with
  | none =>
      rw [entered_of_target? target] at entered
      exact .inl ⟨rfl, (Except.ok.inj entered).symm⟩
  | some name =>
      unfold Expr.target? at target
      split at target
      next other source =>
        rw [entered_assignment] at entered
        cases tried : source.tryValue (table.declareAll (other :: source.names)) with
        | error fault =>
            rw [tried] at entered
            cases entered
        | ok value =>
            rw [tried] at entered
            cases entered
            exact .inr ⟨other, source, value, rfl, tried, rfl⟩
      next => cases target

theorem isRegistered_declareAll (table : Variables) (names : List String) (name : String) :
    (table.declareAll names).isRegistered name = true ↔
      name ∈ names ∨ table.isRegistered name = true := by
  rw [isRegistered, find?_declareAll, isRegistered]
  split
  next member => simp [member]
  next missing => simp [missing]

theorem isRegistered_entered (entered : table.entered expr = .ok after) :
    after.isRegistered name = true ↔ name ∈ expr.names ∨ table.isRegistered name = true := by
  obtain ⟨-, rfl⟩ | ⟨target, source, value, rfl, -, rfl⟩ := entered_cases entered
  · exact isRegistered_declareAll table expr.names name
  · rw [← isRegistered_declareAll, isRegistered, find?_put]
    split
    next same =>
      subst same
      simp [isRegistered_declareAll, Expr.names]
    next => rfl

theorem value?_entered (entered : table.entered expr = .ok after)
    (other : expr.target? ≠ some name) : after.value? name = table.value? name := by
  obtain ⟨-, rfl⟩ | ⟨target, source, value, rfl, -, rfl⟩ := entered_cases entered
  · rw [value?_declareAll]
  · rw [value?_put, if_neg, value?_declareAll]
    rintro rfl
    exact other rfl

/-! ### Replaying -/

theorem replay_cons (table : Variables) (expr : Expr) (rest : List Expr) :
    table.replay (expr :: rest) = (table.entered expr).bind (·.replay rest) :=
  rfl

theorem isRegistered_replay (replayed : table.replay exprs = .ok after) :
    after.isRegistered name = true ↔
      name ∈ exprs.flatMap Expr.names ∨ table.isRegistered name = true := by
  induction exprs generalizing table with
  | nil =>
      cases replayed
      simp
  | cons expr rest inductionHypothesis =>
      obtain ⟨middle, entered, replayed⟩ := bind_eq_ok_iff.mp replayed
      rw [inductionHypothesis replayed, isRegistered_entered entered, List.flatMap_cons,
        List.mem_append]
      exact or_left_comm.trans or_assoc.symm

theorem value?_replay (replayed : table.replay exprs = .ok after)
    (other : name ∉ exprs.filterMap Expr.target?) : after.value? name = table.value? name := by
  induction exprs generalizing table with
  | nil =>
      cases replayed
      rfl
  | cons expr rest inductionHypothesis =>
      obtain ⟨middle, entered, replayed⟩ := bind_eq_ok_iff.mp replayed
      rw [List.mem_filterMap] at other
      rw [inductionHypothesis replayed, value?_entered entered]
      · exact fun target => other ⟨expr, List.mem_cons_self, target⟩
      · intro later
        obtain ⟨assignment, member, target⟩ := List.mem_filterMap.mp later
        exact other ⟨assignment, List.mem_cons_of_mem expr member, target⟩

theorem isRegistered_replay_of_registered (replayed : table.replay exprs = .ok after)
    (registered : ∀ expr ∈ exprs, ∀ name ∈ expr.names, table.isRegistered name = true)
    (name : String) : after.isRegistered name = table.isRegistered name := by
  apply Bool.eq_iff_iff.mpr
  rw [isRegistered_replay replayed, or_iff_right_iff_imp, List.mem_flatMap]
  rintro ⟨expr, member, inside⟩
  exact registered expr member name inside

theorem Sound.replay {kind : Kind} (sound : table.Sound kind)
    (readable : ∀ expr ∈ exprs, expr.Readable kind) (replayed : table.replay exprs = .ok after) :
    after.Sound kind := by
  induction exprs generalizing table with
  | nil =>
      cases replayed
      exact sound
  | cons expr rest inductionHypothesis =>
      obtain ⟨middle, entered, replayed⟩ := bind_eq_ok_iff.mp replayed
      have here := readable expr List.mem_cons_self
      exact inductionHypothesis (sound.entered here entered)
        (fun other later => readable other (List.mem_cons_of_mem expr later)) replayed

theorem fault_of_replay {kind : Kind} (sound : table.Sound kind)
    (readable : ∀ expr ∈ exprs, expr.Readable kind) {fault : Fault}
    (refused : table.replay exprs = .error fault) : fault = .divisionByZero ∧ kind = .int := by
  induction exprs generalizing table with
  | nil => cases refused
  | cons expr rest inductionHypothesis =>
      have here := readable expr List.mem_cons_self
      rw [replay_cons] at refused
      cases entered : table.entered expr with
      | error cause =>
          rw [entered] at refused
          cases refused
          exact fault_of_entered sound here entered
      | ok middle =>
          rw [entered] at refused
          exact inductionHypothesis (sound.entered here entered)
            (fun other later => readable other (List.mem_cons_of_mem expr later)) refused

theorem replay_of_refused {earlier later : List Expr} {middle : Variables} {fault : Fault}
    (first : table.replay earlier = .ok middle) (refused : middle.entered expr = .error fault) :
    table.replay (earlier ++ expr :: later) = .error fault := by
  rw [replay] at first
  rw [replay, List.foldlM_append, first]
  change (middle.entered expr).bind (·.replay later) = .error fault
  rw [refused]
  rfl

/-- An assignment that is replayed leaves its target with the value of its source, as the
variables are at that moment, or without a value if the source has none. -/
theorem replay_assignment {earlier later : List Expr}
    (replayed : table.replay exprs = .ok after) {source : Expr}
    (split : exprs = earlier ++ .binary .assign (.variable name) source :: later) :
    ∃ before next value, table.replay earlier = .ok before ∧
      source.tryValue (before.declareAll (name :: source.names)) = .ok value ∧
      table.replay (earlier ++ [.binary .assign (.variable name) source]) = .ok next ∧
      next.value? name = value := by
  rw [split, replay, List.foldlM_append] at replayed
  obtain ⟨before, first, replayed⟩ := bind_eq_ok_iff.mp replayed
  obtain ⟨next, entered, -⟩ := bind_eq_ok_iff.mp replayed
  have both : table.replay (earlier ++ [.binary .assign (.variable name) source]) = .ok next := by
    rw [replay, List.foldlM_append]
    refine bind_eq_ok_iff.mpr ⟨before, first, ?_⟩
    rw [List.foldlM_cons, entered]
    rfl
  rw [entered_assignment] at entered
  cases tried : source.tryValue (before.declareAll (name :: source.names)) with
  | error fault =>
      rw [tried] at entered
      cases entered
  | ok value =>
      rw [tried] at entered
      cases entered
      exact ⟨before, _, value, first, tried, both, by rw [value?_put, if_pos rfl]⟩

end Variables

/-! ### Replaying again -/

namespace Expr

/-- The variables on which the value of an assignment depends. -/
def sourceNames : Expr → List String
  | .binary .assign (.variable _) source => source.names
  | _ => []

/-- A source depends on a variable only after all assignments to it have begun: one of them
has been made before, or there is none any more. -/
def ordered (before : List String) : List Expr → Bool
  | [] => true
  | expr :: rest =>
      (expr.sourceNames.all fun name =>
        name ∈ before || name ∉ (expr :: rest).filterMap target?) &&
      ordered (before ++ expr.target?.toList) rest

end Expr

namespace Variables

variable {table : Variables} {exprs : List Expr}

/-- The values after a replay come about again where those that have been assigned before
are what they were, and all others are already what they will be. -/
theorem replay_of_ordered {before : List String} {final table' : Variables}
    (replayed : table.replay exprs = .ok final) (ordered : Expr.ordered before exprs = true)
    (values : ∀ name, table'.value? name =
      if name ∈ before then table.value? name else final.value? name) :
    ∃ after, table'.replay exprs = .ok after ∧
      ∀ name, after.value? name = final.value? name := by
  -- The second table has the last value of a name from the start.  Once the name is assigned,
  -- both tables have the same one.
  induction exprs generalizing before table table' with
  | nil =>
      cases replayed
      exact ⟨table', rfl, fun name => (values name).trans (ite_self _)⟩
  | cons expr rest inductionHypothesis =>
      have unassigned : ∀ name ∉ (expr :: rest).filterMap Expr.target?,
          final.value? name = table.value? name := fun name => value?_replay replayed
      obtain ⟨middle, entered, replayed⟩ := bind_eq_ok_iff.mp replayed
      rw [Expr.ordered, Bool.and_eq_true, List.all_eq_true] at ordered
      obtain ⟨settled, ordered⟩ := ordered
      obtain ⟨free, rfl⟩ | ⟨target, source, value, rfl, tried, rfl⟩ := entered_cases entered
      · have ordered' : Expr.ordered before rest = true := by
          simpa only [free, Option.toList_none, List.append_nil] using ordered
        have values' (name : String) : (table'.declareAll expr.names).value? name =
            if name ∈ before then (table.declareAll expr.names).value? name
            else final.value? name := by
          rw [value?_declareAll, value?_declareAll, values]
        obtain ⟨after, done, same⟩ := inductionHypothesis replayed ordered' values'
        refine ⟨after, ?_, same⟩
        rw [replay_cons, entered_of_target? free]
        exact done
      · have sameSource : ∀ name ∈ source.names,
            (table'.declareAll (target :: source.names)).value? name =
              (table.declareAll (target :: source.names)).value? name := by
          intro name member
          rw [value?_declareAll, value?_declareAll, values]
          split
          next => rfl
          next late =>
            have never := settled name member
            simp only [late, decide_false, Bool.false_or, decide_eq_true_eq] at never
            exact unassigned name never
        have again := Expr.tryValue_congr sameSource
        have values' (name : String) :
            ((table'.declareAll (target :: source.names)).put target value).value? name =
              if name ∈ before ++ [target] then
                ((table.declareAll (target :: source.names)).put target value).value? name
              else final.value? name := by
          rw [value?_put, value?_put, value?_declareAll, value?_declareAll, values]
          by_cases here : name = target <;> simp [here]
        obtain ⟨after, done, same⟩ := inductionHypothesis replayed ordered values'
        refine ⟨after, ?_, same⟩
        rw [Expr.names, Expr.names, List.singleton_append] at tried
        rw [replay_cons, entered_assignment, again, tried]
        exact done

/-- Expressions in order of their dependencies change nothing when they are replayed again. -/
theorem replay_again {final : Variables} (replayed : table.replay exprs = .ok final)
    (ordered : Expr.ordered [] exprs = true) : final.replay exprs = .ok final := by
  have final_values (name : String) :
      final.value? name = if name ∈ [] then table.value? name else final.value? name :=
    (if_neg List.not_mem_nil).symm
  obtain ⟨after, done, values⟩ := replay_of_ordered replayed ordered final_values
  have registered : ∀ expr ∈ exprs, ∀ name ∈ expr.names, final.isRegistered name = true :=
    fun expr member name inside =>
      (isRegistered_replay replayed).mpr (.inl (List.mem_flatMap.mpr ⟨expr, member, inside⟩))
  rw [done]
  exact congrArg _ (eq_of_value? (isRegistered_replay_of_registered done registered) values)

end Variables

end Worksheet
