import Worksheet.Proofs.Forest.Stepwise
import Worksheet.Proofs.Sheet.Operation

/-!
# Operations on sheets step by step

An operation asks the forest to graft, to remove and to move trees, and each of these calls
may be refused.  In a rooted sheet only a graft ever is: the trees that an operation removes
are there, and the root takes every listed tree.
-/

namespace Worksheet.Sheet

/-- Steps on a sheet.  What has been done stays when a later step fails. -/
abbrev Steps := ExceptT SheetError (StateM Sheet)

def called (sheet : Sheet) : Except Fault Forest → Except SheetError Unit × Sheet
  | .error fault => (.error (.fault fault), sheet)
  | .ok forest => (.ok (), { sheet with forest })

def grafting (sheet : Sheet) :
    Except Fault Handle × Forest → Except SheetError Handle × Sheet
  | (.error fault, forest) => (.error (.fault fault), { sheet with forest })
  | (.ok node, forest) => (.ok node, { sheet with forest })

namespace Steps

variable {α β : Type}

def on (steps : Steps α) (sheet : Sheet) : Except SheetError α × Sheet :=
  StateT.run (ExceptT.run steps) sheet

/-! ### Single steps -/

def look (reading : Sheet → α) : Steps α :=
  ExceptT.mk fun sheet => (.ok (reading sheet), sheet)

def write (change : Sheet → Sheet) : Steps Unit :=
  ExceptT.mk fun sheet => (.ok (), change sheet)

/-- A call of the forest that changes nothing if it is refused. -/
def call (change : Forest → Except Fault Forest) : Steps Unit :=
  ExceptT.mk fun sheet => sheet.called (change sheet.forest)

/-- Grafting may store values and register names before it is refused. -/
def graft (expr : Expr) : Steps Handle :=
  ExceptT.mk fun sheet => sheet.grafting (sheet.forest.graft expr)

def attempt (steps : Steps α) : Steps (Except SheetError α) :=
  ExceptT.mk fun sheet => (.ok (steps.on sheet).1, (steps.on sheet).2)

def settle (outcome : Except SheetError α) : Steps α :=
  ExceptT.mk fun sheet => (outcome, sheet)

/-! ### Operations -/

def refreshRoot : Steps Unit := do
  let root ← look (·.root)
  call (·.groupClear root)
  (← look (·.listed)).forM fun node => call (·.groupPush root node)
  write touched

def merge (expr : Expr) : Steps Bool := do
  let node ← graft expr
  let known ← look fun sheet => sheet.listed.any fun listed => sheet.forest.agrees listed node
  if known then
    call (·.remove node)
    return false
  else
    write fun sheet => { sheet with listed := sheet.listed ++ [node] }
    return true

def mergeAll (exprs : List Expr) : Steps Unit :=
  exprs.forM fun expr => discard (merge expr)

def enterSegment (segment : List Char) : Steps Bool := do
  write fun sheet => sheet.withTable (sheet.dialect.declared sheet.table segment)
  match ← look fun sheet => Expr.read sheet.kind segment with
  | .error error => throw (.read error)
  | .ok expr => merge expr

def enterSegments : List (List Char) → Steps (Except SheetError Unit × Bool)
  | [] => return (.ok (), false)
  | segment :: segments => do
      match ← attempt (enterSegment segment) with
      | .error error => return (.error error, false)
      | .ok grew =>
          let (outcome, grewLater) ← enterSegments segments
          return (outcome, grew || grewLater)

def enter (text : String) : Steps Bool := do
  let (outcome, grew) ← enterSegments (← look fun sheet => sheet.dialect.segments text)
  if grew then refreshRoot
  settle (outcome.map fun _ => grew)

def remove (node : Handle) : Steps Bool := do
  if ← look fun sheet => decide (node ∈ sheet.listed) then
    write fun sheet => { sheet with listed := sheet.listed.erase node }
    call (·.remove node)
    write prune
    refreshRoot
    return true
  else return false

def replaceBy (node : Handle) (first : Expr) (others : List Expr) : Steps Bool := do
  let replacement ← graft first
  call (·.remove node)
  write fun sheet => { sheet with listed := sheet.listed.replace node replacement }
  let outcome ← attempt (mergeAll others)
  write prune
  refreshRoot
  settle (outcome.map fun _ => true)

def replace (node : Handle) (text : Option String) : Steps Bool := do
  if ← look fun sheet => decide (node ∈ sheet.listed) then
    match text.filter fun text => !Text.allBlank text.toList with
    | none => remove node
    | some text =>
        let (exprs, table) ← look fun sheet => sheet.dialect.readAll sheet.table text
        write (·.withTable table)
        match exprs with
        | .error error => throw (.read error)
        | .ok [] => remove node
        | .ok (first :: others) => replaceBy node first others
  else throw .notListed

/-! ### Taking steps -/

section Taking

variable {sheet sheet' : Sheet} {steps : Steps α} {value : α} {error : SheetError}

theorem on_bind_of_ok (taken : steps.on sheet = (.ok value, sheet')) (next : α → Steps β) :
    (steps >>= next).on sheet = (next value).on sheet' :=
  run_bind_of_ok taken next

theorem on_bind_of_error (failed : steps.on sheet = (.error error, sheet'))
    (next : α → Steps β) : (steps >>= next).on sheet = (.error error, sheet') :=
  run_bind_of_error failed next

theorem on_look (reading : Sheet → α) (next : α → Steps β) :
    (look reading >>= next).on sheet = (next (reading sheet)).on sheet :=
  on_bind_of_ok rfl next

theorem on_write (change : Sheet → Sheet) (next : Unit → Steps β) :
    (write change >>= next).on sheet = (next ()).on (change sheet) :=
  on_bind_of_ok rfl next

theorem on_call {change : Forest → Except Fault Forest} {forest : Forest}
    (done : change sheet.forest = .ok forest) :
    (call change).on sheet = (.ok (), { sheet with forest }) :=
  congrArg sheet.called done

theorem on_graft_of_ok {expr : Expr} {node : Handle} {forest : Forest}
    (done : sheet.forest.graft expr = (.ok node, forest)) :
    (graft expr).on sheet = (.ok node, { sheet with forest }) :=
  congrArg sheet.grafting done

theorem on_graft_of_error {expr : Expr} {fault : Fault} {forest : Forest}
    (refused : sheet.forest.graft expr = (.error fault, forest)) :
    (graft expr).on sheet = (.error (.fault fault), { sheet with forest }) :=
  congrArg sheet.grafting refused

theorem on_attempt (steps : Steps α) (next : Except SheetError α → Steps β) :
    (attempt steps >>= next).on sheet = (next (steps.on sheet).1).on (steps.on sheet).2 :=
  on_bind_of_ok rfl next

theorem on_callAll {change : Handle → Forest → Except Fault Forest} {nodes : List Handle}
    {forest : Forest}
    (done : nodes.foldlM (fun forest node => change node forest) sheet.forest = .ok forest) :
    (nodes.forM fun node => call (change node)).on sheet = (.ok (), { sheet with forest }) := by
  induction nodes generalizing sheet with
  | nil =>
      cases done
      rfl
  | cons node rest inductionHypothesis =>
      rw [List.foldlM_cons] at done
      obtain ⟨middle, here, later⟩ := bind_eq_ok_iff.mp done
      rw [List.forM, on_bind_of_ok (on_call here)]
      exact inductionHypothesis later

end Taking

end Steps

open Steps

variable {sheet : Sheet} {node : Handle}

/-! ### Steps of rooted sheets -/

theorem Rooted.on_refreshRoot (rooted : sheet.Rooted) :
    Steps.refreshRoot.on sheet = (.ok (), sheet.refreshRoot) := by
  obtain ⟨cleared, done, pushed⟩ := bind_eq_ok_iff.mp rooted.refreshRoot_eq_ok
  rw [Steps.refreshRoot, on_look, on_bind_of_ok (on_call done), on_look,
    on_bind_of_ok (on_callAll pushed)]
  rfl

theorem Rooted.on_merge (rooted : sheet.Rooted) {expr : Expr}
    (readable : expr.Readable sheet.kind) : (Steps.merge expr).on sheet = sheet.merge expr := by
  rw [Steps.merge, Sheet.merge]
  split
  next refused => exact on_bind_of_error (on_graft_of_error refused) _
  next node forest done =>
    -- The new tree is there, so it can be removed if there was one like it.
    obtain ⟨grafted, -⟩ := rooted.linked.grafted_of_graft readable.lawful done
    obtain ⟨content, located, -⟩ := grafted.linked.live_of_expr? grafted.expr?
    rw [on_bind_of_ok (on_graft_of_ok done), on_look]
    dsimp only
    split
    next known =>
      rw [on_bind_of_ok (on_call (Forest.remove_eq_ok located))]
      rfl
    next => rfl

theorem Rooted.on_mergeAll (rooted : sheet.Rooted) {exprs : List Expr}
    (readable : ∀ expr ∈ exprs, expr.Readable sheet.kind) :
    (Steps.mergeAll exprs).on sheet = sheet.mergeAll exprs := by
  induction exprs generalizing sheet with
  | nil => rfl
  | cons expr rest inductionHypothesis =>
      have here := readable expr List.mem_cons_self
      have merged := rooted.on_merge here
      have leads := (edits_merge here).leads rooted
      have same := sheet.dialect_merge expr
      rw [Sheet.mergeAll]
      rw [Steps.mergeAll, List.forM]
      split
      next failed =>
        rw [failed] at merged
        refine on_bind_of_error (on_bind_of_error merged _) _
      next done =>
        rw [done] at merged leads same
        rw [on_bind_of_ok (on_bind_of_ok merged _)]
        apply inductionHypothesis leads.rooted
        intro other later
        rw [kind, same]
        exact readable other (List.mem_cons_of_mem expr later)

theorem Rooted.on_enterSegment (rooted : sheet.Rooted) (segment : List Char) :
    (Steps.enterSegment segment).on sheet = sheet.enterSegment segment := by
  have declared := (rooted.withTable (sheet.dialect.declared sheet.table segment)).1
  rw [Steps.enterSegment, Sheet.enterSegment, on_write, on_look]
  generalize sheet.withTable (sheet.dialect.declared sheet.table segment) = middle at declared ⊢
  cases read : Expr.read middle.kind segment with
  | error error => rfl
  | ok expr => exact declared.on_merge (Expr.readable_of_read read)

theorem Rooted.on_enterSegments (rooted : sheet.Rooted) (segments : List (List Char)) :
    (Steps.enterSegments segments).on sheet =
      (.ok ((sheet.enterSegments segments).1, (sheet.enterSegments segments).2.1),
        (sheet.enterSegments segments).2.2) := by
  induction segments generalizing sheet with
  | nil => rfl
  | cons segment rest inductionHypothesis =>
      have leads := (sheet.edits_enterSegment segment).leads rooted
      rw [Steps.enterSegments, on_attempt, rooted.on_enterSegment, Sheet.enterSegments]
      rcases step : sheet.enterSegment segment with ⟨error | grew, after⟩
      · rfl
      · rw [step] at leads
        exact on_bind_of_ok (inductionHypothesis leads.rooted) _

/-- No step of entering a text is refused but the grafting of its expressions. -/
theorem Rooted.on_enter (rooted : sheet.Rooted) (text : String) :
    (Steps.enter text).on sheet = sheet.enter text := by
  have leads := (sheet.edits_enterSegments (sheet.dialect.segments text)).leads rooted
  rw [Steps.enter, on_look, on_bind_of_ok (rooted.on_enterSegments _), Sheet.enter]
  dsimp only
  split
  next => exact on_bind_of_ok leads.rooted.on_refreshRoot _
  next => rfl

/-- No step of removing an expression is refused. -/
theorem Rooted.on_remove (rooted : sheet.Rooted) (node : Handle) :
    (Steps.remove node).on sheet = (.ok (sheet.remove node).1, (sheet.remove node).2) := by
  rw [Steps.remove, Sheet.remove, on_look]
  by_cases listed : node ∈ sheet.listed
  · obtain ⟨content, located, -⟩ := rooted.live_of_mem listed
    have pruned : sheet.Edits false true _ := .prune (.erase sheet.unedited listed)
    rw [if_pos (decide_eq_true listed), if_pos listed, on_write,
      on_bind_of_ok (on_call (Forest.remove_eq_ok located)), on_write]
    exact on_bind_of_ok (pruned.leads rooted).rooted.on_refreshRoot _
  · rw [if_neg (by simpa using listed), if_neg listed]
    rfl

theorem Rooted.on_replaceBy (rooted : sheet.Rooted) (listed : node ∈ sheet.listed) {first : Expr}
    {others : List Expr} (readable : ∀ expr ∈ first :: others, expr.Readable sheet.kind) :
    (Steps.replaceBy node first others).on sheet = sheet.replaceBy node first others := by
  have here := readable first List.mem_cons_self
  rw [Steps.replaceBy, Sheet.replaceBy]
  split
  next refused => exact on_bind_of_error (on_graft_of_error refused) _
  next replacement forest done =>
    obtain ⟨grafted, -⟩ := rooted.linked.grafted_of_graft here.lawful done
    obtain ⟨content, located, -⟩ := rooted.live_of_mem listed
    have exchanged := Edits.exchange sheet.unedited rfl listed here done
    have merged : sheet.Edits true true (Sheet.mergeAll _ others).2 :=
      exchanged.trans <| .weaken <| edits_mergeAll fun expr later =>
        readable expr (List.mem_cons_of_mem first later)
    rw [on_bind_of_ok (on_graft_of_ok done),
      on_bind_of_ok (on_call (Forest.remove_eq_ok (grafted.kept node content located).1)), on_write,
      on_attempt, (exchanged.leads rooted).rooted.on_mergeAll fun expr later =>
        readable expr (List.mem_cons_of_mem first later), on_write]
    exact on_bind_of_ok (merged.prune.leads rooted).rooted.on_refreshRoot _

/-- No step of replacing an expression is refused but the grafting of the new ones. -/
theorem Rooted.on_replace (rooted : sheet.Rooted) (node : Handle) (text : Option String) :
    (Steps.replace node text).on sheet = sheet.replace node text := by
  rw [Steps.replace, Sheet.replace, on_look]
  by_cases listed : node ∈ sheet.listed
  · rw [if_pos (decide_eq_true listed), if_pos listed]
    cases text.filter fun text => !Text.allBlank text.toList with
    | none => exact rooted.on_remove node
    | some text =>
        have declared := rooted.withTable (sheet.dialect.readAll sheet.table text).2
        dsimp only
        rw [on_look, on_write]
        rcases read : (sheet.dialect.readAll sheet.table text).1 with error | exprs
        · rfl
        · cases exprs with
          | nil => exact declared.1.on_remove node
          | cons first others =>
              exact declared.1.on_replaceBy listed (Dialect.readable_of_readSegments read)
  · rw [if_neg (by simpa using listed), if_neg listed]
    rfl

end Worksheet.Sheet
