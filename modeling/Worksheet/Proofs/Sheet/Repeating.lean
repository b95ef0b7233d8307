import Worksheet.Proofs.Expr.Agreement
import Worksheet.Proofs.Sheet.Segments

/-!
# Entering a text again

A text that is entered again lists nothing, but its assignments are made again, over the
values that the first time has left behind.  Nothing changes exactly if replaying them there
ends with the same values, and they do so if every source comes after what it depends on.
-/

namespace Worksheet

/-! ### Expressions that are listed already -/

namespace Expr

variable {known exprs : List Expr} {expr : Expr}

theorem agrees_self (finite : ∀ value ∈ expr.constants, value.isFinite = true) :
    expr.agrees expr = true := by
  induction expr with
  | number value => exact Number.agrees_self (finite value List.mem_cons_self)
  | «variable» name => exact beq_self_eq_true name
  | binary operator left right leftHypothesis rightHypothesis =>
      rw [agrees, beq_self_eq_true,
        leftHypothesis fun value member => finite value (List.mem_append_left _ member),
        rightHypothesis fun value member => finite value (List.mem_append_right _ member)]
      rfl

def IsKnown (known : List Expr) (expr : Expr) : Prop :=
  (known.any fun other => other.agrees expr) = true

theorem IsKnown.mono {more : List Expr} (listed : IsKnown known expr) (fewer : known ⊆ more) :
    IsKnown more expr := by
  obtain ⟨other, member, agrees⟩ := List.any_eq_true.mp listed
  exact List.any_eq_true.mpr ⟨other, fewer member, agrees⟩

theorem isKnown_insertNew (known : List Expr)
    (finite : ∀ value ∈ expr.constants, value.isFinite = true) :
    IsKnown (insertNew known expr) expr := by
  rw [insertNew]
  split
  next listed => exact listed
  next =>
    apply List.any_eq_true.mpr
    exact ⟨expr, List.mem_append_right _ List.mem_cons_self, agrees_self finite⟩

theorem isKnown_foldl_insertNew (known : List Expr)
    (finite : ∀ expr ∈ exprs, ∀ value ∈ expr.constants, value.isFinite = true) :
    ∀ expr ∈ exprs, IsKnown (exprs.foldl insertNew known) expr := by
  induction exprs generalizing known with
  | nil => simp
  | cons first rest inductionHypothesis =>
      intro expr member
      rw [List.foldl_cons]
      rcases List.mem_cons.mp member with rfl | later
      · obtain ⟨new, same, -⟩ := Sheet.foldl_insertNew_eq_append (insertNew known expr) rest
        rw [same]
        exact (isKnown_insertNew known (finite expr List.mem_cons_self)).mono
          (List.subset_append_left _ _)
      · apply inductionHypothesis _ _ expr later
        exact fun other member => finite other (List.mem_cons_of_mem first member)

theorem foldl_insertNew_of_isKnown (listed : ∀ expr ∈ exprs, IsKnown known expr) :
    exprs.foldl insertNew known = known := by
  induction exprs with
  | nil => rfl
  | cons expr rest inductionHypothesis =>
      have here := listed expr List.mem_cons_self
      rw [IsKnown] at here
      rw [List.foldl_cons, insertNew, if_pos here]
      exact inductionHypothesis fun other later => listed other (List.mem_cons_of_mem expr later)

end Expr

/-! ### Entering a text again -/

namespace Dialect

variable {dialect : Dialect} {segments done rest : List (List Char)} {exprs some : List Expr}

theorem exists_of_means (means : List.Forall₂ dialect.Means done some)
    (whole : List.Forall₂ dialect.Means (done ++ rest) exprs) :
    ∃ remaining, exprs = some ++ remaining ∧ List.Forall₂ dialect.Means rest remaining := by
  induction means generalizing exprs with
  | nil => exact ⟨exprs, rfl, whole⟩
  | cons here _ inductionHypothesis =>
      cases whole with
      | cons same whole =>
          obtain ⟨remaining, rfl, later⟩ := inductionHypothesis whole
          exact ⟨remaining, congrArg (· :: _) (same.unique here), later⟩

end Dialect

namespace Sheet

variable {sheet after : Sheet} {exprs : List Expr} {nodes : List Handle} {new : List Expr}

theorem Entered.eq_nil {segments : List (List Char)}
    (entered : sheet.Entered segments exprs nodes new after)
    (known : ∀ expr ∈ exprs, Expr.IsKnown sheet.exprs expr) : nodes = [] ∧ new = [] := by
  have inserted := entered.inserted
  rw [Expr.foldl_insertNew_of_isKnown known] at inserted
  have none : new = [] := List.self_eq_append_right.mp inserted
  have found := entered.found
  rw [none] at found
  exact ⟨List.map_eq_nil_iff.mp found, none⟩

/-- A text with nothing new in it is replayed, and the list and the names stay. -/
theorem Rooted.enter_of_known (rooted : sheet.Rooted) {text : String}
    (means : List.Forall₂ sheet.dialect.Means (sheet.dialect.segments text) exprs)
    (known : ∀ expr ∈ exprs, Expr.IsKnown sheet.exprs expr)
    (registered : ∀ expr ∈ exprs, ∀ name ∈ expr.names, sheet.table.isRegistered name = true) :
    ∃ after, sheet.Grows [] [] after ∧
      (∀ name, after.table.isRegistered name = sheet.table.isRegistered name) ∧
      (sheet.enter text = (.ok false, after) ∧ sheet.table.replay exprs = .ok after.table ∨
        ∃ fault, sheet.enter text = (.error (.fault fault), after) ∧
          sheet.table.replay exprs = .error fault) := by
  obtain ⟨some, nodes, new, ends⟩ := rooted.enterSegments_ends (sheet.dialect.segments text)
  generalize reached : sheet.enterSegments (sheet.dialect.segments text) = outcome at ends
  have entering : sheet.enter text = (outcome.1.map fun _ => outcome.2.1,
      if outcome.2.1 then outcome.2.2.refreshRoot else outcome.2.2) := by
    rw [enter, reached]
  rw [entering]
  cases ends with
  | @finished after entered =>
      have unique : Relator.RightUnique sheet.dialect.Means := fun _ _ _ => Dialect.Means.unique
      cases unique.forall₂ means entered.means
      obtain ⟨rfl, rfl⟩ := entered.eq_nil known
      exact ⟨after, entered.toGrows,
        Variables.isRegistered_replay_of_registered entered.replayed registered,
        .inl ⟨rfl, entered.replayed⟩⟩
  | @stopped done rest segment error middle after split entered refuses spared declared =>
      rw [split] at means
      obtain ⟨remaining, rfl, later⟩ := Dialect.exists_of_means entered.means means
      obtain ⟨rfl, rfl⟩ :=
        entered.eq_nil fun expr member => known expr (List.mem_append_left _ member)
      cases later with
      | @cons _ expr _ later here =>
          rw [entered.dialect] at refuses declared
          rw [here.declared_eq] at declared
          cases refuses with
          | unread read => cases here.symm.trans read
          | unmade here' refused =>
              cases here.unique here'
              refine ⟨after, entered.toGrows.trans spared, fun name => ?_, .inr
                ⟨_, rfl, Variables.replay_of_refused entered.replayed refused⟩⟩
              have same := Variables.isRegistered_replay_of_registered entered.replayed
                (fun other member => registered other (List.mem_append_left _ member)) name
              rw [declared, ← same]
              apply Bool.eq_iff_iff.mpr
              rw [Variables.isRegistered_declareAll, or_iff_right_iff_imp, same]
              exact registered expr (List.mem_append_right _ List.mem_cons_self) name

/-- A text that has been taken as a whole has been replayed as a whole. -/
theorem Rooted.holds_of_enter (rooted : sheet.Rooted) {text : String} {grew : Bool}
    (done : sheet.enter text = (.ok grew, after)) :
    ∃ exprs, List.Forall₂ sheet.dialect.Means (sheet.dialect.segments text) exprs ∧
      sheet.table.replay exprs = .ok after.table ∧
      after.Holds sheet.dialect (exprs.foldl Expr.insertNew sheet.exprs) after.table := by
  obtain ⟨exprs, nodes, new, ends⟩ := rooted.enterSegments_ends (sheet.dialect.segments text)
  generalize reached : sheet.enterSegments (sheet.dialect.segments text) = outcome at ends
  rw [enter, reached] at done
  cases ends with
  | stopped => cases congrArg Prod.fst done
  | @finished last entered =>
      have holds := entered.toGrows.holds rooted
      rw [← entered.inserted] at holds
      have finished : after = if !nodes.isEmpty then last.refreshRoot else last :=
        (congrArg Prod.snd done).symm
      refine ⟨exprs, entered.means, ?_⟩
      rw [finished, entered.replayed]
      split
      next =>
        have gathered := holds.refreshRoot
        rw [gathered.table]
        exact ⟨rfl, gathered⟩
      next => exact ⟨rfl, holds⟩

/-- A text that is entered again lists nothing and keeps all names.  All values stay, too, if and
only if they survive a replay, as they do if every source comes after what it depends on. -/
theorem enter_again {dialect : Dialect} {text : String} {grew : Bool} {once : Sheet}
    (done : (Sheet.new dialect).enter text = (.ok grew, once)) :
    let answer := (once.enter text).1
    let twice := (once.enter text).2
    ∃ exprs, List.Forall₂ dialect.Means (dialect.segments text) exprs ∧
      Variables.empty.replay exprs = .ok once.table ∧
      twice.listed = once.listed ∧
      (∀ node ∈ once.listed, twice.forest.tree node = once.forest.tree node) ∧
      (∀ name, twice.table.isRegistered name = once.table.isRegistered name) ∧
      (answer = .ok false ∨ answer = .error (.fault .divisionByZero) ∧ dialect.kind = .int) ∧
      (answer = .ok false ∧ (∀ name, twice.table.value? name = once.table.value? name) ↔
        once.table.replay exprs = .ok once.table) ∧
      (Expr.ordered [] exprs = true → once.table.replay exprs = .ok once.table) := by
  intro answer twice
  have before := holds_new dialect
  obtain ⟨exprs, means, replayed, holds⟩ := before.rooted.holds_of_enter done
  rw [before.exprs] at holds
  obtain ⟨rooted, same, listed, -⟩ := holds
  have readable := Dialect.readable_of_means means
  have known : ∀ expr ∈ exprs, Expr.IsKnown once.exprs expr := by
    rw [listed]
    exact Expr.isKnown_foldl_insertNew [] fun expr member =>
      (readable expr member).isFinite_constants
  have registered : ∀ expr ∈ exprs, ∀ name ∈ expr.names, once.table.isRegistered name = true :=
    fun expr member name inside =>
      (Variables.isRegistered_replay replayed).mpr
        (.inl (List.mem_flatMap.mpr ⟨expr, member, inside⟩))
  obtain ⟨after, grows, names, outcome⟩ :=
    rooted.enter_of_known (same ▸ means) known registered
  refine ⟨exprs, means, replayed, ?_⟩
  unfold answer twice
  -- Nothing is listed that was not there before, so only the assignments have an effect.
  rcases outcome with ⟨entering, replayed'⟩ | ⟨fault, entering, refused⟩
  · rw [entering]
    refine ⟨grows.listed.trans (List.append_nil _), fun node => grows.tree_eq rooted, names,
      .inl rfl, ?_, Variables.replay_again replayed⟩
    rw [replayed']
    constructor
    · exact fun ⟨_, values⟩ => congrArg Except.ok (Variables.eq_of_value? names values)
    · exact fun unchanged => ⟨rfl, fun name => by rw [Except.ok.inj unchanged]⟩
  · have sound := (Variables.sound_empty dialect.kind).replay readable replayed
    obtain ⟨rfl, whole⟩ := Variables.fault_of_replay sound readable refused
    rw [entering]
    refine ⟨grows.listed.trans (List.append_nil _), fun node => grows.tree_eq rooted, names,
      .inr ⟨rfl, whole⟩, ?_, Variables.replay_again replayed⟩
    rw [refused]
    constructor
    · rintro ⟨⟨⟩, -⟩
    · rintro ⟨⟩

/-- A variable that is assigned twice ends with the same value again. -/
theorem enter_again_reassigned :
    let text := "a = 2; b = a * 3; a = b - 1"
    let once := ((Sheet.new .standard).enter text).2
    (Sheet.new .standard).enter text = (.ok true, once) ∧
      once.table.value? "a" = some (.int 5) ∧ (once.enter text).1 = .ok false ∧
      ∀ name, (once.enter text).2.table.value? name = once.table.value? name := by
  intro text once
  have done : (Sheet.new .standard).enter text = (.ok true, once) := by
    refine Prod.ext ?_ rfl
    cbv
  obtain ⟨exprs, means, -, -, -, -, -, unchanged, ordered⟩ := enter_again done
  have unique : Relator.RightUnique Dialect.standard.Means := fun _ _ _ => Dialect.Means.unique
  have pieces : Dialect.standard.segments text =
      ["a = 2".toList, " b = a * 3".toList, " a = b - 1".toList] := by cbv
  have first : Dialect.standard.Means "a = 2".toList
      (.binary .assign (.variable "a") (.number (.int 2))) := by cbv
  have second : Dialect.standard.Means " b = a * 3".toList (.binary .assign (.variable "b")
      (.binary .multiply (.variable "a") (.number (.int 3)))) := by cbv
  have third : Dialect.standard.Means " a = b - 1".toList (.binary .assign (.variable "a")
      (.binary .subtract (.variable "b") (.number (.int 1)))) := by cbv
  rw [pieces] at means
  cases unique.forall₂ means (.cons first (.cons second (.cons third .nil)))
  refine ⟨done, ?_, unchanged.mpr (ordered ?_)⟩
  · unfold once
    cbv
  · decide

/-- The value of one assignment is found only when the text is entered again, and another one
then divides by the zero that the text ends with. -/
theorem changed_by_entering_again :
    let text := "a = b; c = 1 / b; b = 0"
    let once := ((Sheet.new .standard).enter text).2
    (Sheet.new .standard).enter text = (.ok true, once) ∧
      once.table.value? "a" = none ∧
      (once.enter text).1 = .error (.fault .divisionByZero) ∧
      (once.enter text).2.table.value? "a" = some (.int 0) := by
  intro text once
  refine ⟨Prod.ext ?_ rfl, ?_, ?_, ?_⟩
  · cbv
  all_goals
    unfold once
    cbv

end Sheet

end Worksheet
