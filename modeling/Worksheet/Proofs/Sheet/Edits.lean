import Worksheet.Proofs.Expr.Evaluation
import Worksheet.Sheet.File

/-!
# Edits of sheets

Every operation on a sheet, whether or not it fails, is a chain of few edits.  What each of
these edits preserves is preserved by all operations.
-/

namespace Worksheet

open Grammar

/-! ### Reading segments -/

namespace Dialect

theorem readable_of_readSegments {dialect : Dialect} {table : Variables}
    {segments : List (List Char)} {exprs : List Expr}
    (read : (dialect.readSegments table segments).1 = .ok exprs) :
    ∀ expr ∈ exprs, expr.Readable dialect.kind := by
  induction segments generalizing table exprs with
  | nil =>
      cases read
      simp
  | cons segment rest inductionHypothesis =>
      rw [readSegments] at read
      split at read
      next => cases read
      next expr here =>
        cases later : (dialect.readSegments (dialect.declared table segment) rest).1 with
        | error error =>
            simp [later, Except.map] at read
        | ok others =>
            simp only [later, Except.map, Except.ok.injEq] at read
            subst read
            intro other member
            rcases List.mem_cons.mp member with rfl | member
            · exact Expr.readable_of_read here
            · exact inductionHypothesis later other member

theorem exists_names_readSegments (dialect : Dialect) (table : Variables)
    (segments : List (List Char)) :
    ∃ names : List String, (∀ name ∈ names, isName name.toList = true) ∧
      (dialect.readSegments table segments).2 = table.declareAll names := by
  induction segments generalizing table with
  | nil => exact ⟨[], by simp, rfl⟩
  | cons segment rest inductionHypothesis =>
      have here : ∀ name ∈ Expr.namesRead dialect.kind segment, isName name.toList = true :=
        fun name => Expr.isName_of_mem_namesRead
      rw [readSegments]
      split
      next => exact ⟨_, here, rfl⟩
      next =>
        obtain ⟨names, named, same⟩ := inductionHypothesis (dialect.declared table segment)
        refine ⟨Expr.namesRead dialect.kind segment ++ names, ?_, ?_⟩
        · intro name member
          exact (List.mem_append.mp member).elim (here name) (named name)
        · exact same.trans (Variables.declareAll_append table _ names).symm

end Dialect

namespace Sheet

/-- What a sheet can become by edits, with or without exchanging expressions.  The flag
that goes along is set if the list may have changed since the root was last made to hold
it. -/
inductive Edits (exchanging : Bool) (before : Sheet) : Bool → Sheet → Prop where
  | none {due : Bool} : Edits exchanging before due before
  | declare {due : Bool} {sheet : Sheet} {names : List String}
      (edits : Edits exchanging before due sheet)
      (named : ∀ name ∈ names, isName name.toList = true) :
      Edits exchanging before due (sheet.withTable (sheet.table.declareAll names))
  | prune {due : Bool} {sheet : Sheet} (edits : Edits exchanging before due sheet) :
      Edits exchanging before due sheet.prune
  | refuse {due : Bool} {sheet : Sheet} {expr : Expr} {fault : Fault} {forest : Forest}
      (edits : Edits exchanging before due sheet) (readable : expr.Readable sheet.kind)
      (done : sheet.forest.graft expr = (.error fault, forest)) :
      Edits exchanging before due { sheet with forest }
  | skip {due : Bool} {sheet : Sheet} {expr : Expr} {node : Handle} {forest : Forest}
      (edits : Edits exchanging before due sheet) (readable : expr.Readable sheet.kind)
      (done : sheet.forest.graft expr = (.ok node, forest))
      (known : (sheet.listed.any fun listed => forest.agrees listed node) = true) :
      Edits exchanging before due { sheet with forest := forest.removeTree node }
  | append {due : Bool} {sheet : Sheet} {expr : Expr} {node : Handle} {forest : Forest}
      (edits : Edits exchanging before due sheet) (readable : expr.Readable sheet.kind)
      (done : sheet.forest.graft expr = (.ok node, forest))
      (new : ¬(sheet.listed.any fun listed => forest.agrees listed node) = true) :
      Edits exchanging before true { sheet with forest, listed := sheet.listed ++ [node] }
  | erase {due : Bool} {sheet : Sheet} {node : Handle} (edits : Edits exchanging before due sheet)
      (member : node ∈ sheet.listed) :
      Edits exchanging before true { sheet with
        forest := sheet.forest.removeTree node
        listed := sheet.listed.erase node }
  | exchange {due : Bool} {sheet : Sheet} {expr : Expr} {node replacement : Handle}
      {forest : Forest} (edits : Edits exchanging before due sheet) (allowed : exchanging = true)
      (member : node ∈ sheet.listed) (readable : expr.Readable sheet.kind)
      (done : sheet.forest.graft expr = (.ok replacement, forest)) :
      Edits exchanging before true { sheet with
        forest := forest.removeTree node
        listed := sheet.listed.replace node replacement }
  | refreshRoot {due due' : Bool} {sheet : Sheet} (edits : Edits exchanging before due sheet) :
      Edits exchanging before due' sheet.refreshRoot
  | clear {due due' : Bool} {sheet : Sheet} (edits : Edits exchanging before due sheet)
      (kind : Kind) :
      Edits exchanging before due' { sheet.clear with dialect := { sheet.dialect with kind } }
  | annotate {due : Bool} {sheet : Sheet} (edits : Edits exchanging before due sheet)
      (filters : Filters) (file : Option String) (version : Nat) :
      Edits exchanging before due { sheet with filters, file, version }

variable {before middle after sheet : Sheet} {exchanging due due' : Bool}

theorem unedited (sheet : Sheet) : sheet.Edits exchanging false sheet :=
  .none

theorem Edits.mono {exchanging' : Bool} (edits : before.Edits exchanging due sheet)
    (exchanges : exchanging = true → exchanging' = true) (late : due = true → due' = true) :
    before.Edits exchanging' due' sheet := by
  induction edits generalizing due' with
  | none => exact .none
  | declare _ named inductionHypothesis => exact .declare (inductionHypothesis late) named
  | prune _ inductionHypothesis => exact .prune (inductionHypothesis late)
  | refuse _ readable done inductionHypothesis =>
      exact .refuse (inductionHypothesis late) readable done
  | skip _ readable done known inductionHypothesis =>
      exact .skip (inductionHypothesis late) readable done known
  | append _ readable done new inductionHypothesis =>
      cases late rfl
      exact .append (inductionHypothesis id) readable done new
  | erase _ member inductionHypothesis =>
      cases late rfl
      exact .erase (inductionHypothesis id) member
  | exchange _ allowed member readable done inductionHypothesis =>
      cases late rfl
      exact .exchange (inductionHypothesis id) (exchanges allowed) member readable done
  | refreshRoot _ inductionHypothesis => exact .refreshRoot (inductionHypothesis id)
  | clear _ kind inductionHypothesis => exact .clear (inductionHypothesis id) kind
  | annotate _ filters file version inductionHypothesis =>
      exact .annotate (inductionHypothesis late) filters file version

theorem Edits.weaken (edits : before.Edits false due sheet) :
    before.Edits exchanging due sheet := by
  apply edits.mono _ id
  intro impossible
  cases impossible

theorem Edits.trans (first : before.Edits exchanging due middle)
    (second : middle.Edits exchanging due' after) :
    before.Edits exchanging (due || due') after := by
  induction second with
  | none => exact first.mono id (Bool.or_inl ·)
  | declare _ named inductionHypothesis => exact .declare inductionHypothesis named
  | prune _ inductionHypothesis => exact .prune inductionHypothesis
  | refuse _ readable done inductionHypothesis => exact .refuse inductionHypothesis readable done
  | skip _ readable done known inductionHypothesis =>
      exact .skip inductionHypothesis readable done known
  | append _ readable done new inductionHypothesis =>
      rw [Bool.or_true]
      exact .append inductionHypothesis readable done new
  | erase _ member inductionHypothesis =>
      rw [Bool.or_true]
      exact .erase inductionHypothesis member
  | exchange _ allowed member readable done inductionHypothesis =>
      rw [Bool.or_true]
      exact .exchange inductionHypothesis allowed member readable done
  | refreshRoot _ inductionHypothesis => exact .refreshRoot inductionHypothesis
  | clear _ kind inductionHypothesis => exact .clear inductionHypothesis kind
  | annotate _ filters file version inductionHypothesis =>
      exact .annotate inductionHypothesis filters file version

/-! ### Entering -/

def grown : Except SheetError Bool → Bool
  | .ok grew => grew
  | .error _ => false

theorem edits_merge {expr : Expr} (readable : expr.Readable sheet.kind) :
    sheet.Edits false (grown (sheet.merge expr).1) (sheet.merge expr).2 := by
  rw [merge]
  split
  next refused => exact .refuse .none readable refused
  next done =>
    split
    next known => exact .skip .none readable done known
    next new => exact .append sheet.unedited readable done new

theorem dialect_merge (sheet : Sheet) (expr : Expr) :
    (sheet.merge expr).2.dialect = sheet.dialect := by
  rw [merge]
  split
  next => rfl
  next => split <;> rfl

theorem edits_mergeAll {exprs : List Expr} (readable : ∀ expr ∈ exprs, expr.Readable sheet.kind) :
    sheet.Edits false true (sheet.mergeAll exprs).2 := by
  induction exprs generalizing sheet with
  | nil => exact .none
  | cons expr rest inductionHypothesis =>
      have step := (edits_merge (readable expr List.mem_cons_self)).mono id fun _ => rfl
      have same := sheet.dialect_merge expr
      rw [mergeAll]
      split
      next failed =>
        rw [failed] at step
        exact step
      next merged done =>
        rw [done] at step same
        apply step.trans
        apply inductionHypothesis
        intro other later
        rw [kind, same]
        exact readable other (List.mem_cons_of_mem expr later)

theorem edits_enterSegment (sheet : Sheet) (segment : List Char) :
    sheet.Edits false (grown (sheet.enterSegment segment).1) (sheet.enterSegment segment).2 := by
  have declared : sheet.Edits false false
      (sheet.withTable (sheet.dialect.declared sheet.table segment)) :=
    .declare .none fun name => Expr.isName_of_mem_namesRead
  rw [enterSegment]
  split
  next => exact declared
  next read => exact declared.trans (edits_merge (Expr.readable_of_read read))

theorem edits_enterSegments (sheet : Sheet) (segments : List (List Char)) :
    sheet.Edits false (sheet.enterSegments segments).2.1 (sheet.enterSegments segments).2.2 := by
  induction segments generalizing sheet with
  | nil => exact .none
  | cons segment rest inductionHypothesis =>
      have step := sheet.edits_enterSegment segment
      rw [enterSegments]
      split
      next failed =>
        rw [failed] at step
        exact step
      next done =>
        rw [done] at step
        exact step.trans (inductionHypothesis _)

theorem edits_enter (sheet : Sheet) (text : String) :
    sheet.Edits false false (sheet.enter text).2 := by
  have entered := sheet.edits_enterSegments (sheet.dialect.segments text)
  rw [enter]
  dsimp only
  split
  next => exact .refreshRoot entered
  next still =>
    rw [Bool.eq_false_iff.mpr still] at entered
    exact entered

theorem edits_enterGiven (sheet : Sheet) (text : Option String) :
    sheet.Edits false false (sheet.enterGiven text).2 := by
  cases text with
  | none => exact .none
  | some text => exact sheet.edits_enter text

/-! ### Removing and replacing -/

theorem edits_remove (sheet : Sheet) (node : Handle) :
    sheet.Edits false false (sheet.remove node).2 := by
  rw [remove]
  split
  next listed => exact .refreshRoot (.prune (.erase sheet.unedited listed))
  next => exact .none

theorem edits_replaceBy {node : Handle} (listed : node ∈ sheet.listed) {first : Expr}
    {others : List Expr} (readable : ∀ expr ∈ first :: others, expr.Readable sheet.kind) :
    sheet.Edits true false (sheet.replaceBy node first others).2 := by
  have here := readable first List.mem_cons_self
  rw [replaceBy]
  split
  next refused => exact .refuse .none here refused
  next done =>
    have replaced := Edits.exchange sheet.unedited rfl listed here done
    refine .refreshRoot (.prune (replaced.trans (edits_mergeAll ?_).weaken))
    exact fun expr later => readable expr (List.mem_cons_of_mem first later)

theorem edits_replace (sheet : Sheet) (node : Handle) (text : Option String) :
    sheet.Edits true false (sheet.replace node text).2 := by
  rw [replace]
  split
  next listed =>
    split
    next => exact (sheet.edits_remove node).weaken
    next text _ =>
      obtain ⟨names, named, table⟩ := sheet.dialect.exists_names_readSegments sheet.table
        (sheet.dialect.segments text)
      have declared : sheet.Edits true false
          (sheet.withTable (sheet.dialect.readAll sheet.table text).2) := by
        rw [Dialect.readAll, table]
        exact .declare .none named
      dsimp only
      split
      next => exact declared
      next => exact declared.trans (edits_remove _ node).weaken
      next read =>
        apply declared.trans
        apply edits_replaceBy
        · exact listed
        · exact Dialect.readable_of_readSegments read
  next => exact .none

/-! ### Clearing and files -/

theorem edits_clear (sheet : Sheet) : sheet.Edits false false sheet.clear :=
  .clear sheet.unedited sheet.kind

theorem edits_setKind (sheet : Sheet) (kind : Kind) :
    sheet.Edits false false (sheet.setKind kind).2 := by
  have cleared : sheet.Edits false false
      { sheet.clear with dialect := { sheet.dialect with kind } } :=
    .clear sheet.unedited kind
  rw [setKind]
  split
  next => exact .none
  next =>
    dsimp only
    split
    next => exact cleared
    next => exact cleared.trans (edits_enter _ sheet.text)

theorem edits_enterLines (sheet : Sheet) (lines : List (List Char)) :
    sheet.Edits false false (sheet.enterLines lines).2 := by
  induction lines generalizing sheet with
  | nil => exact .none
  | cons line rest inductionHypothesis =>
      have step := sheet.edits_enter (String.ofList line)
      rw [enterLines]
      split
      next failed =>
        rw [failed] at step
        exact step
      next done =>
        rw [done] at step
        exact step.trans (inductionHypothesis _)

theorem edits_applyType (sheet : Sheet) (name : String) (append : Bool) :
    sheet.Edits false false (sheet.applyType name append).2 := by
  rw [applyType]
  split
  next => exact .none
  next kind _ =>
    split
    next => exact .none
    next => exact sheet.edits_setKind kind

theorem edits_enterFile (sheet : Sheet) (append : Bool) (lines : List (List Char)) :
    sheet.Edits false false (sheet.enterFile append lines).2 := by
  unfold enterFile
  split
  next => exact .none
  next first others =>
    split
    next => exact sheet.edits_enterLines _
    next name _ =>
      have step := sheet.edits_applyType name append
      split
      next failed =>
        rw [failed] at step
        exact step
      next done =>
        rw [done] at step
        exact step.trans (edits_enterLines _ others)

theorem edits_load (sheet : Sheet) (folder : Folder) (name : String) (append : Bool) :
    sheet.Edits false false (sheet.load folder name append).2 := by
  rw [load]
  split
  next => exact .none
  next content _ =>
    have before : sheet.Edits false false (if append then sheet else sheet.clear) := by
      split
      next => exact .none
      next => exact sheet.edits_clear
    have entered := before.trans (edits_enterFile _ append (Text.filledLines content.toList))
    dsimp only
    split
    next failed =>
      rw [failed] at entered
      exact entered
    next done =>
      rw [done] at entered
      exact .annotate entered _ (some name) _

theorem edits_save {folder folder' : Folder} {name : String} {saved : Sheet}
    (done : sheet.save folder name = .ok (saved, folder')) : sheet.Edits false false saved := by
  rw [save] at done
  split at done
  next => cases done
  next =>
    cases done
    exact .annotate .none sheet.filters (some name) (sheet.version + 1)

end Sheet

end Worksheet
