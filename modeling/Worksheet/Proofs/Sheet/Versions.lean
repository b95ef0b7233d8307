import Worksheet.Proofs.Sheet.Skipping

/-!
# What the version counts

Every change of the list, the filters, the file or the kind is counted.  A change of the
variables is counted unless it comes of reading a text that lists nothing, and then it is
not.
-/

namespace Worksheet

namespace Sheet

variable {sheet : Sheet} {table : Variables} {text : String}

/-! ### Files that are added -/

/-- The lines of a file that are entered when it is added to the sheet: a line for another
kind ends the loading before any of them. -/
def addedLines (sheet : Sheet) : List (List Char) → List (List Char)
  | [] => []
  | first :: others =>
      match typeName? first with
      | none => first :: others
      | some name => if Kind.ofName? name = some sheet.kind then others else []

theorem setKind_kind (sheet : Sheet) : sheet.setKind sheet.kind = (.ok false, sheet) := by
  rw [setKind, if_pos rfl]

theorem applyType_added (sheet : Sheet) (name : String) :
    sheet.applyType name true =
      if Kind.ofName? name = some sheet.kind then (.ok (), sheet)
      else (.error (.unknownKind name), sheet) := by
  rw [applyType]
  split
  next unknown => rw [unknown, if_neg (by simp)]
  next kind found =>
    rw [found]
    split
    next different => rw [if_neg (by simpa using different)]
    next same =>
      have same : kind = sheet.kind := by simpa using same
      rw [same, setKind_kind, if_pos rfl]
      rfl

/-- A file that is added has its lines entered, or it is refused as it stands. -/
theorem enterFile_added (sheet : Sheet) (lines : List (List Char)) :
    sheet.enterFile true lines = sheet.enterLines (sheet.addedLines lines) ∨
      sheet.addedLines lines = [] ∧
        ∃ error, sheet.enterFile true lines = (.error error, sheet) := by
  cases lines with
  | nil => exact .inl rfl
  | cons first others =>
      rw [enterFile, addedLines]
      cases typeName? first with
      | none => exact .inl rfl
      | some name =>
          dsimp only
          rw [applyType_added]
          by_cases same : Kind.ofName? name = some sheet.kind
          · rw [if_pos same, if_pos same]
            exact .inl rfl
          · rw [if_neg same, if_neg same]
            exact .inr ⟨rfl, _, rfl⟩

/-! ### Changes that are not counted -/

/-- The operation reads text and lists nothing, and leaves the variables of the table. -/
inductive Overlooks (sheet : Sheet) : Operation → Variables → Prop where
  | enter {text : String} {error : Option SheetError} {table : Variables}
      (skips : sheet.dialect.Skips sheet.exprs sheet.table (sheet.dialect.segments text)
        error table) :
      Overlooks sheet (.enter (some text)) table
  | load {folder : Folder} {name content : String} {error : SheetError} {table : Variables}
      (read : folder.read name = .ok content)
      (skips : sheet.dialect.Skips sheet.exprs sheet.table
        (lineSegments sheet.dialect (sheet.addedLines (Text.filledLines content.toList)))
        (some error) table) :
      Overlooks sheet (.load folder name true) table
  | unread {node : Handle} {text : String} {error : ReadError} {table : Variables}
      (listed : node ∈ sheet.listed) (filled : Text.allBlank text.toList = false)
      (read : sheet.dialect.readAll sheet.table text = (.error error, table)) :
      Overlooks sheet (.replace node (some text)) table
  | unmade {node : Handle} {text : String} {first : Expr} {others : List Expr} {fault : Fault}
      {table : Variables} (listed : node ∈ sheet.listed)
      (filled : Text.allBlank text.toList = false)
      (read : sheet.dialect.readAll sheet.table text = (.ok (first :: others), table))
      (refused : table.entered first = .error fault) :
      Overlooks sheet (.replace node (some text)) table

theorem Rooted.spares_withTable (rooted : sheet.Rooted) (table : Variables) :
    sheet.Spares table (sheet.withTable table) :=
  ⟨rooted.grows_withTable table, rfl, rfl⟩

theorem filter_eq_some_of_filled (filled : Text.allBlank text.toList = false) :
    (some text).filter (fun text => !Text.allBlank text.toList) = some text := by
  rw [Option.filter_some, if_pos (by rw [filled]; rfl)]

/-- Where nothing is listed the sheet is as before, but for the variables. -/
theorem Rooted.spares_of_overlooks (rooted : sheet.Rooted) {operation : Operation}
    (overlooks : sheet.Overlooks operation table) :
    sheet.Spares table (sheet.perform operation) := by
  cases overlooks with
  | enter skips =>
      obtain ⟨after, done, spares⟩ := rooted.holds.enter_of_skips skips
      rw [perform, enterGiven, done]
      exact spares
  | @load folder name content error _ read skips =>
      obtain ⟨after, done, spares⟩ := rooted.holds.enterLines_of_skips skips
      rcases sheet.enterFile_added (Text.filledLines content.toList) with
        same | ⟨none, -⟩
      · rw [perform, load, read]
        dsimp only
        rw [if_pos rfl, same, done]
        exact spares
      · rw [none] at skips
        cases skips
  | @unread node text error _ listed filled read =>
      rw [perform, replace, if_pos listed, filter_eq_some_of_filled filled]
      dsimp only
      rw [read]
      exact rooted.spares_withTable table
  | @unmade node text first others fault _ listed filled read refused =>
      have readable := Dialect.readable_of_readSegments (congrArg Prod.fst read) first
        List.mem_cons_self
      have declared := rooted.spares_withTable table
      obtain ⟨forest, done, linked, kept, same⟩ :=
        declared.rooted.linked.graft_of_refused readable.lawful refused
      have registered := Dialect.isRegistered_readSegments read first List.mem_cons_self
      rw [show (sheet.withTable table).forest.table = table from rfl,
        Variables.declareAll_of_isRegistered registered] at same
      rw [perform, replace, if_pos listed, filter_eq_some_of_filled filled]
      dsimp only
      rw [read]
      dsimp only
      rw [replaceBy, done]
      exact declared.trans ⟨declared.rooted.grows_of_extends linked kept, rfl, same⟩

/-! ### Changes that are counted -/

theorem mergeAll_eq (sheet : Sheet) (exprs : List Expr) :
    ∃ forest listed, (sheet.mergeAll exprs).2 = { sheet with forest, listed } := by
  induction exprs generalizing sheet with
  | nil => exact ⟨_, _, rfl⟩
  | cons expr rest inductionHypothesis =>
      obtain ⟨forest, listed, same⟩ := sheet.merge_eq expr
      rw [mergeAll]
      split
      next failed =>
        rw [failed] at same
        exact ⟨forest, listed, same⟩
      next done =>
        rw [done] at same
        dsimp only at same
        subst same
        obtain ⟨forest', listed', same⟩ := inductionHypothesis { sheet with forest, listed }
        exact ⟨forest', listed', same⟩

theorem version_remove {node : Handle} (listed : node ∈ sheet.listed) :
    (sheet.remove node).2.version = sheet.version + 1 := by
  rw [remove, if_pos listed]
  rfl

theorem version_replaceBy {node replacement : Handle} {first : Expr} {forest : Forest}
    (done : sheet.forest.graft first = (.ok replacement, forest)) (others : List Expr) :
    (sheet.replaceBy node first others).2.version = sheet.version + 1 := by
  rw [replaceBy, done]
  obtain ⟨forest', listed, same⟩ := mergeAll_eq
    { sheet with
      forest := forest.removeTree node
      listed := sheet.listed.replace node replacement } others
  dsimp only
  rw [same]
  rfl

theorem version_lt_setKind {kind : Kind} (different : kind ≠ sheet.kind) :
    sheet.version < (sheet.setKind kind).2.version := by
  rw [setKind, if_neg different]
  dsimp only
  split
  next => exact Nat.lt_succ_self _
  next => exact version_le_enter { sheet.clear with dialect := { sheet.dialect with kind } } _

theorem version_le_setKind (sheet : Sheet) (kind : Kind) :
    sheet.version ≤ (sheet.setKind kind).2.version := by
  by_cases same : kind = sheet.kind
  · rw [same, setKind_kind]
  · exact (version_lt_setKind same).le

theorem version_le_enterFile (sheet : Sheet) (append : Bool) (lines : List (List Char)) :
    sheet.version ≤ (sheet.enterFile append lines).2.version := by
  have typed (name : String) : sheet.version ≤ (sheet.applyType name append).2.version := by
    rw [applyType]
    split
    next => exact Nat.le_refl _
    next kind _ =>
      split
      next => exact Nat.le_refl _
      next => exact sheet.version_le_setKind kind
  unfold enterFile
  split
  next => exact Nat.le_refl _
  next first others =>
    split
    next => exact sheet.version_le_enterLines _
    next name _ =>
      have step := typed name
      split
      next failed =>
        rw [failed] at step
        exact step
      next done =>
        rw [done] at step
        exact step.trans (version_le_enterLines _ others)

theorem version_save {folder folder' : Folder} {name : String} {saved : Sheet}
    (done : sheet.save folder name = .ok (saved, folder')) :
    saved.version = sheet.version + 1 := by
  rw [save] at done
  split at done
  next => cases done
  next =>
    cases done
    rfl

theorem version_lt_load_of_not_append {folder : Folder} {name content : String}
    (read : folder.read name = .ok content) :
    sheet.version < (sheet.load folder name false).2.version := by
  have entered := sheet.clear.version_le_enterFile false (Text.filledLines content.toList)
  have cleared : sheet.version < sheet.clear.version := Nat.lt_succ_self _
  rw [load, read]
  dsimp only
  rw [if_neg Bool.false_ne_true]
  split
  next failed =>
    rw [failed] at entered
    exact cleared.trans_le entered
  next done =>
    rw [done] at entered
    exact (cleared.trans_le entered).trans (Nat.lt_succ_self _)

theorem Rooted.load_cases (rooted : sheet.Rooted) (folder : Folder) (name : String)
    (append : Bool) :
    sheet.version < (sheet.load folder name append).2.version ∨
      (sheet.load folder name append).2 = sheet ∨
        ∃ table, sheet.Overlooks (.load folder name append) table := by
  cases read : folder.read name with
  | error fault =>
      rw [load, read]
      exact .inr (.inl rfl)
  | ok content =>
      cases append with
      | false => exact .inl (version_lt_load_of_not_append read)
      | true =>
          have entered := sheet.version_le_enterFile true (Text.filledLines content.toList)
          rw [load, read]
          dsimp only
          rw [if_pos rfl]
          split
          next failed =>
            rcases sheet.enterFile_added (Text.filledLines content.toList) with
              same | ⟨-, _, refused⟩
            · rw [same] at failed entered
              rcases entered.lt_or_eq with grew | still
              · rw [failed] at grew
                exact .inl grew
              · obtain ⟨error, table, skips⟩ := rooted.holds.skips_of_enterLines still.symm
                obtain ⟨after, done, -⟩ := rooted.holds.enterLines_of_skips skips
                cases error with
                | none => cases done.symm.trans failed
                | some error => exact .inr (.inr ⟨table, .load read skips⟩)
            · cases failed.symm.trans refused
              exact .inr (.inl rfl)
          next done =>
            rw [done] at entered
            exact .inl (entered.trans_lt (Nat.lt_succ_self _))

theorem Rooted.replace_cases (rooted : sheet.Rooted) (node : Handle) (text : Option String) :
    sheet.version < (sheet.replace node text).2.version ∨
      (sheet.replace node text).2 = sheet ∨
        ∃ table, sheet.Overlooks (.replace node text) table := by
  by_cases listed : node ∈ sheet.listed
  · rw [replace, if_pos listed]
    split
    next => exact .inl (version_remove listed ▸ Nat.lt_succ_self _)
    next given text found =>
      obtain ⟨rfl, filled⟩ := Option.filter_eq_some_iff.mp found
      have filled : Text.allBlank text.toList = false := by simpa using filled
      generalize reading : sheet.dialect.readAll sheet.table text = outcome
      obtain ⟨exprs, table⟩ := outcome
      cases exprs with
      | error error => exact .inr (.inr ⟨table, .unread listed filled reading⟩)
      | ok exprs =>
          cases exprs with
          | nil =>
              have still : node ∈ (sheet.withTable table).listed := listed
              have removed : (sheet.withTable table).version <
                  ((sheet.withTable table).remove node).2.version :=
                version_remove still ▸ Nat.lt_succ_self _
              exact .inl removed
          | cons first others =>
              cases entered : table.entered first with
              | error fault => exact .inr (.inr ⟨table, .unmade listed filled reading entered⟩)
              | ok last =>
                  have readable := Dialect.readable_of_readSegments (congrArg Prod.fst reading)
                    first List.mem_cons_self
                  obtain ⟨replacement, forest, done, -⟩ :=
                    (rooted.withTable table).1.linked.graft_of_entered readable.lawful entered
                  have replaced : (sheet.withTable table).version <
                      ((sheet.withTable table).replaceBy node first others).2.version :=
                    version_replaceBy done others ▸ Nat.lt_succ_self _
                  exact .inl replaced
  · rw [replace, if_neg listed]
    exact .inr (.inl rfl)

theorem savedOr_cases {outcome : Except SheetError (Sheet × Folder)}
    (counted : ∀ saved folder, outcome = .ok (saved, folder) → sheet.version < saved.version) :
    sheet.version < (sheet.savedOr outcome).version ∨ sheet.savedOr outcome = sheet := by
  cases outcome with
  | error error => exact .inr rfl
  | ok result => exact .inl (counted result.1 result.2 rfl)

/-- An operation is counted, or it does nothing, or it is one that is overlooked. -/
theorem Rooted.perform_cases (rooted : sheet.Rooted) (operation : Operation) :
    sheet.version < (sheet.perform operation).version ∨ sheet.perform operation = sheet ∨
      ∃ table, sheet.Overlooks operation table := by
  have saved {folder : Folder} {name : String} (saved : Sheet) (folder' : Folder)
      (done : sheet.save folder name = .ok (saved, folder')) : sheet.version < saved.version :=
    version_save done ▸ Nat.lt_succ_self _
  cases operation with
  | enter text =>
      cases text with
      | none => exact .inr (.inl rfl)
      | some text =>
          rcases (sheet.version_le_enter text).lt_or_eq with grew | still
          · exact .inl grew
          · obtain ⟨error, table, skips⟩ := rooted.holds.skips_of_enter still.symm
            exact .inr (.inr ⟨table, .enter skips⟩)
  | replace node text => exact rooted.replace_cases node text
  | remove node =>
      by_cases listed : node ∈ sheet.listed
      · exact .inl (version_remove listed ▸ Nat.lt_succ_self _)
      · rw [perform, remove, if_neg listed]
        exact .inr (.inl rfl)
  | setKind kind =>
      by_cases same : kind = sheet.kind
      · rw [perform, same, setKind_kind]
        exact .inr (.inl rfl)
      · exact .inl (version_lt_setKind same)
  | load folder name append => exact rooted.load_cases folder name append
  | save folder name => exact (savedOr_cases saved).imp_right .inl
  | saveCurrent folder =>
      refine (savedOr_cases fun after folder' done => ?_).imp_right .inl
      rw [saveCurrent] at done
      split at done
      next => cases done
      next => exact saved after folder' done
  | _ => exact .inl (Nat.lt_succ_self _)

/-- An operation that leaves the version as it was leaves all but the variables, and it changes
these just if it has read a text up to a piece that is refused, or to the end, and listed
nothing. -/
theorem Attainable.version_misses (attainable : sheet.Attainable) (operation : Operation) :
    let after := sheet.perform operation
    sheet.version ≤ after.version ∧
      (after.version = sheet.version →
        after.listed = sheet.listed ∧
          (∀ node ∈ sheet.listed, after.forest.tree node = sheet.forest.tree node) ∧
          after.filters = sheet.filters ∧ after.file = sheet.file ∧
          after.dialect = sheet.dialect ∧ after.root = sheet.root) ∧
      ∀ table, table ≠ sheet.table →
        (after.version = sheet.version ∧ after.table = table ↔
          sheet.Overlooks operation table) := by
  intro after
  have rooted := attainable.intact.rooted
  have overlooked {table : Variables} (overlooks : sheet.Overlooks operation table) :
      sheet.Spares table after := rooted.spares_of_overlooks overlooks
  have spared : sheet.version < after.version ∨ sheet.Spares after.table after := by
    rcases rooted.perform_cases operation with counted | idle | ⟨table, overlooks⟩
    · exact .inl counted
    · refine .inr ?_
      rw [show after = sheet from idle]
      exact rooted.spares_refl
    · have spares := overlooked overlooks
      exact .inr (spares.table.symm ▸ spares)
  have version {table : Variables} (spares : sheet.Spares table after) :
      after.version = sheet.version := by
    rw [spares.same]
  refine ⟨?_, fun still => ?_, fun table changed => ?_⟩
  · exact spared.elim Nat.le_of_lt fun spares => (version spares).ge
  · have spares := spared.resolve_left still.not_gt
    refine ⟨spares.listed.trans (List.append_nil _), fun node => spares.toGrows.tree_eq rooted,
      ?_, ?_, spares.dialect, ?_⟩
    all_goals rw [spares.same]
  · constructor
    · rintro ⟨still, rfl⟩
      rcases rooted.perform_cases operation with counted | idle | ⟨table, overlooks⟩
      · exact absurd still counted.ne'
      · exact absurd (congrArg Sheet.table idle) changed
      · rwa [(overlooked overlooks).table]
    · intro overlooks
      have spares := overlooked overlooks
      exact ⟨version spares, spares.table⟩

/-- A file that is added gives a variable an earlier value again, registers another one, and
is refused. -/
theorem Attainable.version_misses_load :
    let sheet := (new .standard).acts [.own (.enter (some "a = 1")), .own (.enter (some "a = 2"))]
    let operation :=
      Operation.load (Folder.empty.put "f" "type int\na = 1\nb * 99999999999\n".toUTF8) "f" true
    let after := sheet.perform operation
    sheet.Attainable ∧ after.table.entries = [("a", some (.int 1)), ("b", none)] ∧
      after.table ≠ sheet.table ∧ sheet.Overlooks operation after.table := by
  intro sheet operation after
  have attainable : sheet.Attainable := ⟨_, _, rfl⟩
  have before : sheet.table.entries = [("a", some (.int 2))] := by
    unfold sheet
    cbv
  have version : after.version = sheet.version := by
    unfold after operation sheet
    cbv
  have entries : after.table.entries = [("a", some (.int 1)), ("b", none)] := by
    unfold after operation sheet
    cbv
  have changed : after.table ≠ sheet.table := by
    intro same
    rw [same, before] at entries
    simp at entries
  exact ⟨attainable, entries, changed,
    ((Attainable.version_misses attainable operation).2.2 _ changed).mp ⟨version, rfl⟩⟩

/-- An assignment that is listed already gives its variable another value. -/
theorem value_changed_uncounted :
    let sheet := (new .standard).run [.enter (some "a = 1"), .enter (some "a = 2")]
    let after := sheet.perform (.enter (some "a = 1"))
    sheet.Reachable ∧ sheet.table.value? "a" = some (.int 2) ∧
      after.table.value? "a" = some (.int 1) ∧ after.version = sheet.version := by
  intro sheet after
  refine ⟨⟨_, _, rfl⟩, ?_, ?_, ?_⟩
  · unfold sheet
    cbv
  all_goals
    unfold after sheet
    cbv

end Sheet

end Worksheet
