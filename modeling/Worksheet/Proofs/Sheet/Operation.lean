import Worksheet.Proofs.Sheet.Edits
import Worksheet.Proofs.Sheet.Entering

/-!
# Operations on sheets

Every operation keeps a sheet rooted and its variables sound, whatever it is given and
whether or not it fails.  Hence a sheet that is only changed by operations stays so.
-/

namespace Worksheet

namespace Sheet

variable {sheet : Sheet}

/-! ### Empty sheets -/

theorem holds_of_group {forest : Forest} (linked : forest.Linked) (table : Variables)
    (same : forest.table = table) (sheet : Sheet) :
    ({ sheet with
      forest := forest.addEmptyGroup.2
      root := forest.addEmptyGroup.1
      listed := [] } : Sheet).Holds sheet.dialect [] table := by
  have located := Forest.node?_allocate_self linked.formed (.group [])
  refine ⟨⟨linked.allocate rfl, ⟨[], located⟩, List.nodup_nil, ?_, ?_⟩, rfl, rfl, same⟩
  · intro node member
    cases member
  · intro node member
    cases member

theorem holds_new (dialect : Dialect) : (new dialect).Holds dialect [] .empty :=
  holds_of_group (Forest.linked_empty .empty) .empty rfl (new dialect)

theorem Rooted.holds_clear (rooted : sheet.Rooted) : sheet.clear.Holds sheet.dialect [] .empty := by
  have holds := holds_of_group (rooted.linked.clear.withTable .empty) .empty rfl sheet
  exact ⟨⟨holds.rooted.linked, holds.rooted.root, holds.rooted.nodup_listed,
    holds.rooted.outermost_listed, holds.rooted.expr?_listed⟩, rfl, rfl, rfl⟩

theorem Holds.listed_eq_nil {dialect : Dialect} {table : Variables}
    (holds : sheet.Holds dialect [] table) : sheet.listed = [] := by
  have same := holds.rooted.map_expr?
  rw [holds.exprs] at same
  exact List.map_eq_nil_iff.mp same

theorem Holds.withDialect {dialect : Dialect} {table : Variables}
    (holds : sheet.Holds dialect [] table) (dialect' : Dialect) :
    ({ sheet with dialect := dialect' } : Sheet).Holds dialect' [] table := by
  have rooted := holds.rooted
  refine ⟨⟨rooted.linked, rooted.root, rooted.nodup_listed, rooted.outermost_listed, ?_⟩,
    rfl, holds.exprs, holds.table⟩
  intro node member
  rw [holds.listed_eq_nil] at member
  cases member

/-! ### Files -/

theorem Holds.of_same {dialect : Dialect} {exprs : List Expr} {table : Variables}
    (holds : sheet.Holds dialect exprs table) {after : Sheet}
    (sameDialect : after.dialect = sheet.dialect) (forest : after.forest = sheet.forest)
    (listed : after.listed = sheet.listed) (root : after.root = sheet.root) :
    after.Holds dialect exprs table := by
  obtain ⟨dialect', forest', listed', root', filters, file, version⟩ := after
  cases sameDialect
  cases forest
  cases listed
  cases root
  have rooted := holds.rooted
  refine ⟨?_, holds.dialect, holds.exprs, holds.table⟩
  exact ⟨rooted.linked, rooted.root, rooted.nodup_listed, rooted.outermost_listed,
    rooted.expr?_listed⟩

theorem Rooted.leads_of_same (rooted : sheet.Rooted) {after : Sheet}
    (dialect : after.dialect = sheet.dialect) (forest : after.forest = sheet.forest)
    (listed : after.listed = sheet.listed) (root : after.root = sheet.root) :
    sheet.Leads after :=
  (rooted.holds.of_same dialect forest listed root).leads id

/-! ### Edits -/

/-- Edits keep a sheet rooted and its variables sound. -/
theorem Edits.leads {before : Sheet} {exchanging due : Bool}
    (edits : before.Edits exchanging due sheet)
    (rooted : before.Rooted) : before.Leads sheet := by
  -- Every edit leaves the sheet rooted, which the next one asks for, and its table sound.
  induction edits with
  | none => exact .refl rooted
  | declare _ named inductionHypothesis =>
      apply inductionHypothesis.trans
      exact inductionHypothesis.rooted.leads_withTable fun sound => sound.declareAll named
  | prune _ inductionHypothesis =>
      exact inductionHypothesis.trans inductionHypothesis.rooted.leads_prune
  | refuse _ readable done inductionHypothesis =>
      have rooted := inductionHypothesis.rooted
      obtain ⟨linked, kept, -, table⟩ := rooted.linked.refused_of_graft readable.lawful done
      refine inductionHypothesis.trans ⟨(rooted.of_extends linked kept).1, fun sound => ?_⟩
      rw [Sheet.table, table]
      exact sound.declareAll readable.isName_names
  | skip _ readable done known inductionHypothesis =>
      have rooted := inductionHypothesis.rooted
      obtain ⟨grafted, entered⟩ := rooted.linked.grafted_of_graft readable.lawful done
      have kept := rooted.linked.extends_removeTree grafted.linked grafted.kept grafted.fresh
        grafted.root
      refine inductionHypothesis.trans
        ⟨(rooted.of_extends (grafted.linked.removeTree _) kept).1, fun sound => ?_⟩
      rw [Sheet.table, Forest.table_removeTree_of_root grafted.root]
      exact sound.entered readable entered
  | append _ readable done new inductionHypothesis =>
      have rooted := inductionHypothesis.rooted
      obtain ⟨grafted, entered⟩ := rooted.linked.grafted_of_graft readable.lawful done
      exact inductionHypothesis.trans
        ⟨(rooted.grafted readable grafted).1, fun sound => sound.entered readable entered⟩
  | erase _ member inductionHypothesis =>
      obtain ⟨removed, table⟩ := inductionHypothesis.rooted.removeTree member
      refine inductionHypothesis.trans ⟨removed, fun sound => ?_⟩
      rw [Sheet.table, table]
      exact sound
  | exchange _ _ member readable done inductionHypothesis =>
      have rooted := inductionHypothesis.rooted
      obtain ⟨grafted, entered⟩ := rooted.linked.grafted_of_graft readable.lawful done
      obtain ⟨exchanged, table⟩ := rooted.exchange readable grafted member
      refine inductionHypothesis.trans ⟨exchanged, fun sound => ?_⟩
      rw [Sheet.table, table]
      exact sound.entered readable entered
  | refreshRoot _ inductionHypothesis =>
      exact inductionHypothesis.trans inductionHypothesis.rooted.leads_refreshRoot
  | @clear _ _ middle _ kind inductionHypothesis =>
      have holds := inductionHypothesis.rooted.holds_clear.withDialect
        { middle.dialect with kind }
      refine inductionHypothesis.trans ⟨holds.rooted, fun _ => ?_⟩
      rw [holds.table]
      exact Variables.sound_empty _
  | annotate _ filters file version inductionHypothesis =>
      exact inductionHypothesis.trans
        (inductionHypothesis.rooted.leads_of_same rfl rfl rfl rfl)

/-! ### Runs -/

inductive Operation where
  | enter (text : Option String)
  | replace (node : Handle) (text : Option String)
  | remove (node : Handle)
  | clear
  | setKind (kind : Kind)
  | load (folder : Folder) (name : String) (append : Bool)
  | save (folder : Folder) (name : String)
  | saveCurrent (folder : Folder)
  | resetFile
  | refreshRoot
  | filterOperator (operator : Option Operator)
  | filterTerminals (terminals : Terminals)
  | filterName (name : Option String)

/-- A sheet that could not be saved stays as it was. -/
def savedOr (sheet : Sheet) : Except SheetError (Sheet × Folder) → Sheet
  | .error _ => sheet
  | .ok (saved, _) => saved

def perform (sheet : Sheet) : Operation → Sheet
  | .enter text => (sheet.enterGiven text).2
  | .replace node text => (sheet.replace node text).2
  | .remove node => (sheet.remove node).2
  | .clear => sheet.clear
  | .setKind kind => (sheet.setKind kind).2
  | .load folder name append => (sheet.load folder name append).2
  | .save folder name => sheet.savedOr (sheet.save folder name)
  | .saveCurrent folder => sheet.savedOr (sheet.saveCurrent folder)
  | .resetFile => sheet.resetFile
  | .refreshRoot => sheet.refreshRoot
  | .filterOperator operator => sheet.filterOperator operator
  | .filterTerminals terminals => sheet.filterTerminals terminals
  | .filterName name => sheet.filterName name

def run (sheet : Sheet) (operations : List Operation) : Sheet :=
  operations.foldl perform sheet

/-- The sheet can come about by operations. -/
def Reachable (sheet : Sheet) : Prop :=
  ∃ dialect operations, (new dialect).run operations = sheet

theorem edits_savedOr {outcome : Except SheetError (Sheet × Folder)}
    (step : ∀ saved folder, outcome = .ok (saved, folder) → sheet.Edits false false saved) :
    sheet.Edits false false (sheet.savedOr outcome) := by
  cases outcome with
  | error error => exact .none
  | ok result => exact step result.1 result.2 rfl

def Operation.exchanges : Operation → Bool
  | .replace _ _ => true
  | _ => false

/-- An operation consists of edits, also if it fails, and it leaves the root up to date. -/
theorem edits_perform (sheet : Sheet) (operation : Operation) :
    sheet.Edits operation.exchanges false (sheet.perform operation) := by
  cases operation with
  | enter text => exact sheet.edits_enterGiven text
  | replace node text => exact sheet.edits_replace node text
  | remove node => exact sheet.edits_remove node
  | clear => exact sheet.edits_clear
  | setKind kind => exact sheet.edits_setKind kind
  | load folder name append => exact sheet.edits_load folder name append
  | save folder name => exact edits_savedOr fun _ _ => edits_save
  | saveCurrent folder =>
      apply edits_savedOr
      intro saved folder' done
      rw [saveCurrent] at done
      split at done
      next => cases done
      next => exact edits_save done
  | resetFile => exact .annotate .none sheet.filters none (sheet.version + 1)
  | refreshRoot => exact .refreshRoot sheet.unedited
  | filterOperator operator =>
      exact .annotate .none { sheet.filters with operator } sheet.file (sheet.version + 1)
  | filterTerminals terminals =>
      exact .annotate .none { sheet.filters with terminals } sheet.file (sheet.version + 1)
  | filterName name =>
      exact .annotate .none { sheet.filters with name } sheet.file (sheet.version + 1)

theorem Rooted.leads_run (rooted : sheet.Rooted) (operations : List Operation) :
    sheet.Leads (sheet.run operations) := by
  induction operations generalizing sheet with
  | nil => exact .refl rooted
  | cons operation rest inductionHypothesis =>
      have step := (sheet.edits_perform operation).leads rooted
      exact step.trans (inductionHypothesis step.rooted)

/-- Whatever has been done to a sheet, its lists and its variables are in order. -/
theorem Reachable.rooted_and_sound (reachable : sheet.Reachable) :
    sheet.Rooted ∧ sheet.table.Sound sheet.kind := by
  obtain ⟨dialect, operations, rfl⟩ := reachable
  have leads := (holds_new dialect).rooted.leads_run operations
  exact ⟨leads.rooted, leads.sound (Variables.sound_empty dialect.kind)⟩

end Sheet

end Worksheet
