import Worksheet.Proofs.Forest.Values
import Worksheet.Proofs.Sheet.Segments

/-!
# Kinds in a sheet

While a sheet is left to its own operations, its variables have values of its kind, and the
variables of its expressions are registered.  So no operation mixes kinds or finds a
variable with two values, and arithmetic fails only where integers are divided by zero.
-/

namespace Worksheet

namespace Sheet

variable {before sheet middle after : Sheet} {exchanging due : Bool}

/-! ### Registered names -/

def Mentions (sheet : Sheet) (name : String) : Prop :=
  ∃ expr ∈ sheet.exprs, name ∈ expr.names

instance (sheet : Sheet) (name : String) : Decidable (sheet.Mentions name) :=
  inferInstanceAs (Decidable (∃ expr ∈ sheet.exprs, name ∈ expr.names))

theorem Rooted.any_containsVariable_iff (rooted : sheet.Rooted) {name : String} :
    (sheet.listed.any fun node => sheet.forest.containsVariable node name) = true ↔
      sheet.Mentions name := by
  have contains {node : Handle} {expr : Expr}
      (found : (sheet.forest.tree node).expr? = some expr) :
      sheet.forest.containsVariable node name = true ↔ name ∈ expr.names := by
    simp [Forest.containsVariable, rooted.linked.trees_of_expr? found, Tree.names_of_expr? found]
  rw [List.any_eq_true]
  constructor
  · rintro ⟨node, listed, contained⟩
    obtain ⟨expr, found, -⟩ := rooted.expr?_listed node listed
    exact ⟨expr, List.mem_filterMap.mpr ⟨node, listed, found⟩, (contains found).mp contained⟩
  · rintro ⟨expr, member, inside⟩
    obtain ⟨node, listed, found⟩ := List.mem_filterMap.mp member
    exact ⟨node, listed, (contains found).mpr inside⟩

/-- Pruning keeps just the names in the listed expressions, each with its value. -/
theorem Rooted.find?_prune (rooted : sheet.Rooted) (name : String) :
    sheet.prune.table.find? name =
      if sheet.Mentions name then sheet.table.find? name else none := by
  have table : sheet.prune.table = sheet.table.filter fun name =>
      sheet.listed.any fun node => sheet.forest.containsVariable node name := rfl
  rw [table, Variables.find?_filter]
  exact if_congr rooted.any_containsVariable_iff rfl rfl

/-- Every variable of a listed expression is registered. -/
def Registered (sheet : Sheet) : Prop :=
  ∀ expr ∈ sheet.exprs, ∀ name ∈ expr.names, sheet.table.isRegistered name = true

theorem Registered.mono (registered : sheet.Registered) (fewer : after.exprs ⊆ sheet.exprs)
    (known : ∀ name, sheet.table.isRegistered name = true →
      after.table.isRegistered name = true) : after.Registered :=
  fun expr member name inside => known name (registered expr (fewer member) name inside)

theorem Rooted.registered_withTable (rooted : sheet.Rooted) (registered : sheet.Registered)
    {table : Variables} (known : ∀ name, sheet.table.isRegistered name = true →
      table.isRegistered name = true) : (sheet.withTable table).Registered := by
  refine registered.mono ?_ known
  rw [(rooted.withTable table).2]
  exact List.Subset.refl _

theorem Rooted.registered_prune (rooted : sheet.Rooted) (registered : sheet.Registered) :
    sheet.prune.Registered := by
  intro expr member name inside
  have member' : expr ∈ sheet.exprs := by
    rwa [prune, (rooted.withTable _).2] at member
  rw [Variables.isRegistered, rooted.find?_prune, if_pos ⟨expr, member', inside⟩]
  exact registered expr member' name inside

theorem Rooted.registered_append (rooted : sheet.Rooted) (registered : sheet.Registered)
    {expr : Expr} (readable : expr.Readable sheet.kind) {node : Handle} {forest : Forest}
    (done : sheet.forest.graft expr = (.ok node, forest)) :
    ({ sheet with forest, listed := sheet.listed ++ [node] } : Sheet).Registered := by
  obtain ⟨grafted, entered⟩ := rooted.linked.grafted_of_graft readable.lawful done
  intro other member name inside
  rw [(rooted.grafted readable grafted).2] at member
  apply (Variables.isRegistered_entered entered).mpr
  rcases List.mem_append.mp member with old | new
  · exact .inr (registered other old name inside)
  · rw [List.mem_singleton.mp new] at inside
    exact .inl inside

theorem Rooted.registered_erase (rooted : sheet.Rooted) (registered : sheet.Registered)
    {node : Handle} (member : node ∈ sheet.listed) :
    ({ sheet with
      forest := sheet.forest.removeTree node
      listed := sheet.listed.erase node } : Sheet).Registered := by
  apply registered.mono
  · rw [rooted.exprs_removeTree member]
    exact (List.erase_sublist.filterMap _).subset
  · intro name known
    rwa [Sheet.table, (rooted.removeTree member).2]

theorem Registered.of_perm (registered : sheet.Registered) {listed : List Handle}
    (same : listed.Perm sheet.listed) : ({ sheet with listed } : Sheet).Registered :=
  registered.mono (same.filterMap _).subset fun _ => id

theorem Rooted.registered_exchange (rooted : sheet.Rooted) (registered : sheet.Registered)
    {expr : Expr} (readable : expr.Readable sheet.kind) {node replacement : Handle}
    {forest : Forest} (done : sheet.forest.graft expr = (.ok replacement, forest))
    (listed : node ∈ sheet.listed) :
    ({ sheet with
      forest := forest.removeTree node
      listed := sheet.listed.replace node replacement } : Sheet).Registered := by
  obtain ⟨grafted, -⟩ := rooted.linked.grafted_of_graft readable.lawful done
  obtain ⟨grown, -⟩ := rooted.grafted readable grafted
  have erased := grown.registered_erase (rooted.registered_append registered readable done)
    (List.mem_append_left _ listed)
  refine erased.of_perm ?_
  rw [List.erase_append_left _ listed]
  exact (perm_replace listed).trans (List.perm_append_singleton _ _).symm

theorem Edits.registered (edits : before.Edits exchanging due sheet) (rooted : before.Rooted)
    (registered : before.Registered) : sheet.Registered := by
  induction edits with
  | none => exact registered
  | @declare _ sheet names edits named inductionHypothesis =>
      apply (edits.leads rooted).rooted.registered_withTable inductionHypothesis
      exact fun name known => (sheet.table.isRegistered_declareAll names name).mpr (.inr known)
  | prune edits inductionHypothesis =>
      exact (edits.leads rooted).rooted.registered_prune inductionHypothesis
  | refuse edits readable done inductionHypothesis =>
      have rooted := (edits.leads rooted).rooted
      obtain ⟨linked, kept, -, table⟩ := rooted.linked.refused_of_graft readable.lawful done
      apply inductionHypothesis.mono
      · rw [(rooted.of_extends linked kept).2]
        exact List.Subset.refl _
      · intro name known
        rw [Sheet.table, table]
        exact (Variables.isRegistered_declareAll _ _ name).mpr (.inr known)
  | skip edits readable done known inductionHypothesis =>
      have rooted := (edits.leads rooted).rooted
      obtain ⟨grafted, entered⟩ := rooted.linked.grafted_of_graft readable.lawful done
      have kept := rooted.linked.extends_removeTree grafted.linked grafted.kept grafted.fresh
        grafted.root
      apply inductionHypothesis.mono
      · rw [(rooted.of_extends (grafted.linked.removeTree _) kept).2]
        exact List.Subset.refl _
      · intro name known
        rw [Sheet.table, Forest.table_removeTree_of_root grafted.root]
        exact (Variables.isRegistered_entered entered).mpr (.inr known)
  | append edits readable done new inductionHypothesis =>
      exact (edits.leads rooted).rooted.registered_append inductionHypothesis readable done
  | erase edits member inductionHypothesis =>
      exact (edits.leads rooted).rooted.registered_erase inductionHypothesis member
  | exchange edits _ member readable done inductionHypothesis =>
      exact (edits.leads rooted).rooted.registered_exchange inductionHypothesis readable done member
  | refreshRoot edits inductionHypothesis =>
      obtain ⟨-, exprs, table⟩ := (edits.leads rooted).rooted.refreshRoot
      apply inductionHypothesis.mono
      · rw [exprs]
        exact List.Subset.refl _
      · exact fun name known => by rwa [table]
  | clear edits kind _ =>
      intro expr member
      cases member
  | annotate _ filters file version inductionHypothesis => exact inductionHypothesis

/-! ### Sheets that are left to themselves -/

/-- What holds of a sheet between actions that leave its variables to it. -/
structure Safe (sheet : Sheet) : Prop where
  intact : sheet.Intact
  sound : sheet.table.Sound sheet.kind
  registered : sheet.Registered

theorem safe_new (dialect : Dialect) : (new dialect).Safe := by
  refine ⟨intact_new dialect, Variables.sound_empty dialect.kind, ?_⟩
  intro expr member
  cases member

theorem Safe.edits (safe : before.Safe) (edits : before.Edits exchanging false sheet) :
    sheet.Safe :=
  ⟨safe.intact.edits edits, (edits.leads safe.intact.rooted).sound safe.sound,
    edits.registered safe.intact.rooted safe.registered⟩

/-- What is below a listed node is a part of a listed expression. -/
theorem Rooted.exists_part (rooted : sheet.Rooted) {top node : Handle}
    (member : top ∈ sheet.listed) (below : sheet.forest.Below node top) :
    ∃ whole ∈ sheet.exprs, ∃ part, (sheet.forest.tree node).expr? = some part ∧
      part.Readable sheet.kind ∧ part.names ⊆ whole.names := by
  obtain ⟨whole, found, readable⟩ := rooted.expr?_listed top member
  obtain ⟨part, here, isPart⟩ := rooted.linked.isPart_of_below found below
  exact ⟨whole, List.mem_filterMap.mpr ⟨top, member, found⟩, part, here,
    isPart.readable readable, isPart.names_subset⟩

/-- Looking for the value of any node stores the value of a readable expression, or it
changes nothing. -/
theorem Intact.value_cases (intact : sheet.Intact) (node : Handle) :
    (sheet.forest.value node).2 = sheet.forest ∨ ∃ expr : Expr, expr.Readable sheet.kind ∧
      (sheet.forest.value node).2 =
        { sheet.forest with table := sheet.forest.table.evaluated expr } := by
  have linked := intact.rooted.linked
  cases located : sheet.forest.node? node with
  | none =>
      have lost : sheet.forest.tree node = .lost node := by rw [linked.tree_eq, located]; rfl
      rw [Forest.value, located, lost]
      exact .inl rfl
  | some content =>
      rcases intact.covered node (Forest.isLive_iff.mpr ⟨content, located⟩) with
        rfl | ⟨top, member, below⟩
      · rw [Forest.value, intact.mirrored]
        exact .inl rfl
      · obtain ⟨-, -, part, found, readable, -⟩ := intact.rooted.exists_part member below
        rw [linked.value_of_isLawful found readable.lawful]
        exact .inr ⟨part, readable, rfl⟩

theorem Safe.value (safe : sheet.Safe) (node : Handle) :
    ({ sheet with forest := (sheet.forest.value node).2 } : Sheet).Safe := by
  obtain same | ⟨expr, readable, same⟩ := safe.intact.value_cases node
  · rw [same]
    exact safe
  · rw [same]
    exact ⟨safe.intact.withTable _, safe.sound.evaluated readable,
      safe.intact.rooted.registered_withTable safe.registered fun name =>
        Variables.isRegistered_evaluated⟩

theorem Safe.tryValue (safe : sheet.Safe) (node : Handle) :
    ({ sheet with forest := (sheet.forest.tryValue node).2 } : Sheet).Safe := by
  rw [Forest.tryValue]
  split
  next => exact safe.value node
  next => exact safe

/-- The action goes to the variables behind the back of the sheet. -/
def Action.isDirect : Action → Bool
  | .table _ => true
  | _ => false

/-- The sheet can come about without such actions. -/
def Undisturbed (sheet : Sheet) : Prop :=
  ∃ dialect actions, (∀ action ∈ actions, action.isDirect = false) ∧
    (new dialect).acts actions = sheet

theorem Safe.act (safe : sheet.Safe) {action : Action} (indirect : action.isDirect = false) :
    (sheet.act action).Safe := by
  cases action with
  | own operation => exact safe.edits (sheet.edits_perform operation)
  | value node => exact safe.value node
  | tryValue node => exact safe.tryValue node
  | table call => cases indirect

theorem Safe.acts (safe : sheet.Safe) {actions : List Action}
    (indirect : ∀ action ∈ actions, action.isDirect = false) : (sheet.acts actions).Safe := by
  induction actions generalizing sheet with
  | nil => exact safe
  | cons action rest inductionHypothesis =>
      exact inductionHypothesis (safe.act (indirect action List.mem_cons_self))
        fun other later => indirect other (List.mem_cons_of_mem action later)

theorem Undisturbed.safe (undisturbed : sheet.Undisturbed) : sheet.Safe := by
  obtain ⟨dialect, actions, indirect, rfl⟩ := undisturbed
  exact (safe_new dialect).acts indirect

/-! ### Failing operations -/

/-- If anything has gone wrong with expressions, integers have been divided by zero. -/
def Harmless {α : Type} (result : Except SheetError α × Sheet) : Prop :=
  ∀ fault, result.1 = .error (.fault fault) → fault = .divisionByZero ∧ result.2.kind = .int

theorem Harmless.of_error {α β : Type} {error : SheetError}
    (harmless : Harmless ((.error error : Except SheetError α), sheet)) :
    Harmless ((.error error : Except SheetError β), sheet) :=
  fun fault failed => harmless fault (congrArg Except.error (Except.error.inj failed))

theorem Harmless.map {α β : Type} {result : Except SheetError α × Sheet}
    (harmless : Harmless result) (f : α → β) (same : after.dialect = result.2.dialect) :
    Harmless (result.1.map f, after) := by
  intro fault failed
  obtain ⟨divided, whole⟩ := harmless fault (error_of_map failed)
  exact ⟨divided, (congrArg Dialect.kind same).trans whole⟩

theorem harmless_ok {α : Type} (value : α) : Harmless ((.ok value : Except SheetError α), sheet) := by
  intro fault failed
  cases failed

theorem Rooted.harmless_mergeAll (rooted : sheet.Rooted) (sound : sheet.table.Sound sheet.kind)
    {exprs : List Expr} (readable : ∀ expr ∈ exprs, expr.Readable sheet.kind) :
    Harmless (sheet.mergeAll exprs) := by
  obtain ⟨nodes, new, merges⟩ := rooted.mergeAll_merges readable
  generalize sheet.mergeAll exprs = outcome at merges
  intro fault failed
  cases merges with
  | finished merged => cases failed
  | @stopped done rest expr middle _ forest split merged refused spared =>
      cases failed
      subst split
      have here := readable expr (List.mem_append_right done List.mem_cons_self)
      obtain ⟨-, -, entered, -⟩ := merged.rooted.linked.refused_of_graft here.lawful refused
      have reached := sound.replay (fun other earlier =>
        readable other (List.mem_append_left _ earlier)) merged.replayed
      obtain ⟨divided, whole⟩ := Variables.fault_of_entered reached here entered
      exact ⟨divided, (congrArg Dialect.kind merged.dialect).trans whole⟩

theorem Rooted.harmless_enter (rooted : sheet.Rooted) (sound : sheet.table.Sound sheet.kind)
    (text : String) : Harmless (sheet.enter text) := by
  obtain ⟨exprs, nodes, new, ends⟩ := rooted.enterSegments_ends (sheet.dialect.segments text)
  generalize reached : sheet.enterSegments (sheet.dialect.segments text) = outcome at ends
  rw [enter, reached]
  cases ends with
  | finished entered => exact harmless_ok _
  | @stopped done rest segment error middle last split entered refuses spared registered =>
      intro fault failed
      cases failed
      have same : last.dialect = sheet.dialect := spared.dialect.trans entered.dialect
      cases refuses with
      | unmade means refused =>
          have readable := Dialect.readable_of_means entered.means
          have reached := sound.replay readable entered.replayed
          rw [entered.dialect] at means
          obtain ⟨divided, whole⟩ :=
            Variables.fault_of_entered reached (Expr.readable_of_read means) refused
          refine ⟨divided, ?_⟩
          dsimp only
          split
          next => exact (congrArg Dialect.kind same).trans whole
          next => exact (congrArg Dialect.kind same).trans whole

theorem Rooted.harmless_enterGiven (rooted : sheet.Rooted)
    (sound : sheet.table.Sound sheet.kind) (text : Option String) :
    Harmless (sheet.enterGiven text) := by
  cases text with
  | none =>
      intro fault failed
      cases failed
  | some text => exact rooted.harmless_enter sound text

theorem Rooted.harmless_replaceBy (rooted : sheet.Rooted) (sound : sheet.table.Sound sheet.kind)
    {node : Handle} (listed : node ∈ sheet.listed) {first : Expr} {others : List Expr}
    (readable : ∀ expr ∈ first :: others, expr.Readable sheet.kind) :
    Harmless (sheet.replaceBy node first others) := by
  have here := readable first List.mem_cons_self
  rw [replaceBy]
  split
  next fault forest refused =>
    intro cause failed
    cases failed
    obtain ⟨-, -, entered, -⟩ := rooted.linked.refused_of_graft here.lawful refused
    exact Variables.fault_of_entered sound here entered
  next replacement forest done =>
    have leads := (Edits.exchange sheet.unedited rfl listed here done).leads rooted
    have merged := leads.rooted.harmless_mergeAll (leads.sound sound)
      fun expr later => readable expr (List.mem_cons_of_mem first later)
    exact merged.map _ rfl

theorem Rooted.harmless_replace (rooted : sheet.Rooted) (sound : sheet.table.Sound sheet.kind)
    (node : Handle) (text : Option String) : Harmless (sheet.replace node text) := by
  rw [replace]
  split
  next listed =>
    split
    next => exact harmless_ok _
    next text _ =>
      obtain ⟨names, named, table⟩ := sheet.dialect.exists_names_readSegments sheet.table
        (sheet.dialect.segments text)
      have declared : sheet.Edits false false
          (sheet.withTable (sheet.dialect.readAll sheet.table text).2) := by
        rw [Dialect.readAll, table]
        exact .declare .none named
      have leads := declared.leads rooted
      dsimp only
      split
      next =>
        intro fault failed
        cases failed
      next => exact harmless_ok _
      next read =>
        apply leads.rooted.harmless_replaceBy (leads.sound sound) listed
        exact Dialect.readable_of_readSegments read
  next =>
    intro fault failed
    cases failed

theorem Rooted.harmless_setKind (rooted : sheet.Rooted) (kind : Kind) :
    Harmless (sheet.setKind kind) := by
  rw [setKind]
  split
  next => exact harmless_ok _
  next =>
    dsimp only
    split
    next => exact harmless_ok _
    next =>
      have holds := rooted.holds_clear.withDialect { sheet.dialect with kind }
      have sound := Variables.sound_empty kind
      rw [← holds.table] at sound
      have entered := holds.rooted.harmless_enter sound sheet.text
      generalize Sheet.enter _ sheet.text = result at entered ⊢
      exact entered.map _ rfl

theorem Rooted.harmless_enterLines (rooted : sheet.Rooted)
    (sound : sheet.table.Sound sheet.kind) (lines : List (List Char)) :
    Harmless (sheet.enterLines lines) := by
  induction lines generalizing sheet with
  | nil => exact harmless_ok ()
  | cons line rest inductionHypothesis =>
      have step := rooted.harmless_enter sound (String.ofList line)
      have leads := (sheet.edits_enter (String.ofList line)).leads rooted
      rw [enterLines]
      split
      next done =>
        rw [done] at step
        exact step.of_error
      next done =>
        rw [done] at leads
        exact inductionHypothesis leads.rooted (leads.sound sound)

theorem Rooted.harmless_applyType (rooted : sheet.Rooted) (name : String) (append : Bool) :
    Harmless (sheet.applyType name append) := by
  rw [applyType]
  split
  next =>
    intro fault failed
    cases failed
  next kind _ =>
    split
    next =>
      intro fault failed
      cases failed
    next => exact (rooted.harmless_setKind kind).map _ rfl

theorem Rooted.harmless_enterFile (rooted : sheet.Rooted)
    (sound : sheet.table.Sound sheet.kind) (append : Bool) (lines : List (List Char)) :
    Harmless (sheet.enterFile append lines) := by
  unfold enterFile
  split
  next => exact harmless_ok ()
  next first others =>
    split
    next => exact rooted.harmless_enterLines sound _
    next name _ =>
      have step := rooted.harmless_applyType name append
      have leads := (sheet.edits_applyType name append).leads rooted
      split
      next done =>
        rw [done] at step
        exact step
      next done =>
        rw [done] at leads
        exact leads.rooted.harmless_enterLines (leads.sound sound) others

theorem Rooted.harmless_load (rooted : sheet.Rooted) (sound : sheet.table.Sound sheet.kind)
    (folder : Folder) (name : String) (append : Bool) :
    Harmless (sheet.load folder name append) := by
  rw [load]
  split
  next =>
    intro fault failed
    cases failed
  next content _ =>
    have leads : sheet.Leads (if append then sheet else sheet.clear) := by
      split
      next => exact .refl rooted
      next => exact sheet.edits_clear.leads rooted
    have entered := leads.rooted.harmless_enterFile (leads.sound sound) append
      (Text.filledLines content.toList)
    dsimp only
    split
    next done =>
      rw [done] at entered
      exact entered.of_error
    next => exact harmless_ok _

def errorOf {α : Type} : Except SheetError α → Option SheetError
  | .error error => some error
  | .ok _ => none

theorem errorOf_eq_some_iff {α : Type} {outcome : Except SheetError α} {error : SheetError} :
    errorOf outcome = some error ↔ outcome = .error error := by
  cases outcome <;> simp [errorOf]

def failure? (sheet : Sheet) (operation : Operation) : Option SheetError :=
  match operation with
  | .enter text => errorOf (sheet.enterGiven text).1
  | .replace node text => errorOf (sheet.replace node text).1
  | .setKind kind => errorOf (sheet.setKind kind).1
  | .load folder name append => errorOf (sheet.load folder name append).1
  | .save folder name => errorOf (sheet.save folder name)
  | .saveCurrent folder => errorOf (sheet.saveCurrent folder)
  | _ => none

theorem fault_ne_of_save {folder : Folder} {name : String} {fault : Fault} :
    sheet.save folder name ≠ .error (.fault fault) := by
  rw [save]
  split <;> simp

/-- An operation fails at arithmetic only by dividing integers by zero. -/
theorem Rooted.fault_of_failure (rooted : sheet.Rooted) (sound : sheet.table.Sound sheet.kind)
    {operation : Operation} {fault : Fault}
    (failed : sheet.failure? operation = some (.fault fault)) :
    fault = .divisionByZero ∧ (sheet.perform operation).kind = .int := by
  cases operation with
  | enter text =>
      exact rooted.harmless_enterGiven sound text fault (errorOf_eq_some_iff.mp failed)
  | replace node text =>
      exact rooted.harmless_replace sound node text fault (errorOf_eq_some_iff.mp failed)
  | setKind kind => exact rooted.harmless_setKind kind fault (errorOf_eq_some_iff.mp failed)
  | load folder name append =>
      exact rooted.harmless_load sound folder name append fault (errorOf_eq_some_iff.mp failed)
  | save folder name => exact absurd (errorOf_eq_some_iff.mp failed) fault_ne_of_save
  | saveCurrent folder =>
      have failed := errorOf_eq_some_iff.mp failed
      rw [saveCurrent] at failed
      split at failed
      next => cases failed
      next => exact absurd failed fault_ne_of_save
  | _ => cases failed

/-! ### Evaluating -/

/-- In a sheet whose variables are left to it all values are of the sheet's kind, all variables in
listed expressions are registered, and nothing fails at arithmetic but divisions of integers by
zero. -/
theorem Undisturbed.kind_safe (undisturbed : sheet.Undisturbed) :
    (∀ name value, sheet.table.value? name = some value → value.kind = sheet.kind) ∧
    (∀ top ∈ sheet.listed, ∀ node, sheet.forest.Below node top →
      (∀ name, sheet.forest.node? node = some (.variable name) →
        sheet.table.isRegistered name = true) ∧
      ((∃ value, (sheet.forest.value node).1 = .ok value ∧ value.kind = sheet.kind) ∨
        (sheet.forest.value node).1 = .error .noValue ∨
        (sheet.forest.value node).1 = .error .divisionByZero ∧ sheet.kind = .int) ∧
      ((∃ value, (sheet.forest.tryValue node).1 = .ok (some value) ∧ value.kind = sheet.kind) ∨
        (sheet.forest.tryValue node).1 = .ok none ∨
        (sheet.forest.tryValue node).1 = .error .divisionByZero ∧ sheet.kind = .int)) ∧
    (∀ text expr fault, Expr.read sheet.kind text = .ok expr →
      (sheet.forest.graft expr).1 = .error fault →
        fault = .divisionByZero ∧ sheet.kind = .int) ∧
    ∀ operation fault, sheet.failure? operation = some (.fault fault) →
      fault = .divisionByZero ∧ (sheet.perform operation).kind = .int := by
  have safe := undisturbed.safe
  have rooted := safe.intact.rooted
  have linked := rooted.linked
  refine ⟨safe.sound.kind_value, fun top member node below => ?_, ?_, ?_⟩
  -- A node below a listed tree is a part of what the tree stands for, and of its kind.
  · obtain ⟨whole, listed, part, found, readable, names⟩ := rooted.exists_part member below
    have typed : ∀ value ∈ part.source.constants, value.kind = sheet.kind :=
      fun value inside => readable.kind_constants value (part.constants_source_subset inside)
    refine ⟨fun name located => ?_, ?_, ?_⟩
    · rw [linked.tree_eq, located] at found
      cases found
      exact safe.registered whole listed name (names List.mem_cons_self)
    · rw [linked.value_of_isLawful found readable.lawful]
      cases evaluated : part.source.evaluate sheet.forest.table with
      | ok value => exact .inl ⟨value, rfl, Expr.kind_of_evaluate safe.sound typed evaluated⟩
      | error fault =>
          obtain ⟨rfl, -⟩ | ⟨rfl, whole⟩ := Expr.fault_of_evaluate safe.sound typed evaluated
          · exact .inr (.inl rfl)
          · exact .inr (.inr ⟨rfl, whole⟩)
    · rw [(linked.tryValue_of_isLawful found readable.lawful).1]
      cases tried : part.source.tryValue sheet.forest.table with
      | ok found =>
          cases found with
          | none => exact .inr (.inl rfl)
          | some value => exact .inl ⟨value, rfl, Expr.kind_of_tryValue safe.sound typed tried⟩
      | error fault =>
          obtain ⟨rfl, whole⟩ := Expr.fault_of_tryValue safe.sound typed tried
          exact .inr (.inr ⟨rfl, whole⟩)
  · intro text expr fault read refused
    have readable := Expr.readable_of_read read
    obtain ⟨-, -, entered, -⟩ := linked.refused_of_graft readable.lawful (Prod.ext refused rfl)
    exact Variables.fault_of_entered safe.sound readable entered
  · exact fun operation fault => rooted.fault_of_failure safe.sound

/-- After a division has been refused, and a file of another kind. -/
theorem Undisturbed.kind_safe_after_division :
    let sheet := (new .standard).acts
      [.own (.enter (some "a = 0; b = 6; c = b / a")), .own (.enter (some "b / d; d = a")),
        .own (.load (Folder.empty.put "f" "type double\n".toUTF8) "f" true),
        .value ⟨10, 1⟩]
    sheet.Undisturbed ∧ sheet.renderings = ["a = 0", "b = 6", "b / d", "d = a"] ∧
      (sheet.forest.value ⟨10, 1⟩).1 = .error .divisionByZero ∧
      sheet.failure? (.enter (some "c = b / a")) = some (.fault .divisionByZero) ∧
      ∀ name value, sheet.table.value? name = some value → value.kind = sheet.kind := by
  intro sheet
  have undisturbed : sheet.Undisturbed := ⟨_, _, by simp [Action.isDirect], rfl⟩
  have run : (sheet.renderings, (sheet.forest.value ⟨10, 1⟩).1,
      sheet.failure? (.enter (some "c = b / a"))) =
      (["a = 0", "b = 6", "b / d", "d = a"], .error .divisionByZero,
        some (.fault .divisionByZero)) := by
    unfold sheet
    cbv
  rw [Prod.mk.injEq, Prod.mk.injEq] at run
  exact ⟨undisturbed, run.1, run.2.1, run.2.2, (Undisturbed.kind_safe undisturbed).1⟩

end Sheet

end Worksheet
