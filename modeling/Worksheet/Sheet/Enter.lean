import Worksheet.Sheet.Basic

/-!
Entering, replacing and removing the expressions of a sheet.

A text is entered segment by segment.  An expression that the sheet has already
is left out, and the first segment that fails ends the entering; what came before
it stays.
-/

namespace Worksheet.Sheet

/-- Puts an expression at the end of the list, unless an equal one is listed.
The answer tells whether it was put there. -/
def merge (sheet : Sheet) (expr : Expr) : Except SheetError Bool × Sheet :=
  match sheet.forest.graft expr with
  | (.error fault, forest) => (.error (.fault fault), { sheet with forest })
  | (.ok node, forest) =>
      if sheet.listed.any fun listed => forest.agrees listed node then
        (.ok false, { sheet with forest := forest.removeTree node })
      else (.ok true, { sheet with forest, listed := sheet.listed ++ [node] })

def withTable (sheet : Sheet) (table : Variables) : Sheet :=
  { sheet with forest := { sheet.forest with table } }

def enterSegment (sheet : Sheet) (segment : List Char) : Except SheetError Bool × Sheet :=
  let sheet := sheet.withTable (sheet.dialect.declared sheet.table segment)
  match Expr.read sheet.kind segment with
  | .error error => (.error (.read error), sheet)
  | .ok expr => sheet.merge expr

/-- Enters segments up to the first that fails.  The answer tells whether the
list grew, also if one failed. -/
def enterSegments (sheet : Sheet) :
    List (List Char) → Except SheetError Unit × Bool × Sheet
  | [] => (.ok (), false, sheet)
  | segment :: segments =>
      match sheet.enterSegment segment with
      | (.error error, sheet) => (.error error, false, sheet)
      | (.ok grew, sheet) =>
          let (outcome, grewLater, sheet) := sheet.enterSegments segments
          (outcome, grew || grewLater, sheet)

/-- Enters a text.  The answer tells whether the list grew. -/
def enter (sheet : Sheet) (text : String) : Except SheetError Bool × Sheet :=
  let (outcome, grew, sheet) := sheet.enterSegments (sheet.dialect.segments text)
  (outcome.map fun _ => grew, if grew then sheet.refreshRoot else sheet)

def enterGiven (sheet : Sheet) (text : Option String) : Except SheetError Bool × Sheet :=
  match text with
  | none => (.error .nothingGiven, sheet)
  | some text => sheet.enter text

/-- Forgets the variables that no listed expression mentions. -/
def prune (sheet : Sheet) : Sheet :=
  sheet.withTable (sheet.table.filter fun name =>
    sheet.listed.any fun node => sheet.forest.containsVariable node name)

/-- Removes an expression.  The answer tells whether it was listed. -/
def remove (sheet : Sheet) (node : Handle) : Bool × Sheet :=
  if node ∈ sheet.listed then
    let removed : Sheet :=
      { sheet with
        forest := sheet.forest.removeTree node
        listed := sheet.listed.erase node }
    (true, removed.prune.refreshRoot)
  else (false, sheet)

def mergeAll (sheet : Sheet) : List Expr → Except SheetError Unit × Sheet
  | [] => (.ok (), sheet)
  | expr :: exprs =>
      match sheet.merge expr with
      | (.error error, sheet) => (.error error, sheet)
      | (.ok _, sheet) => sheet.mergeAll exprs

/-- Puts expressions in the place of a listed one: the first where it stood, the
others at the end. -/
def replaceBy (sheet : Sheet) (node : Handle) (first : Expr) (others : List Expr) :
    Except SheetError Bool × Sheet :=
  match sheet.forest.graft first with
  | (.error fault, forest) => (.error (.fault fault), { sheet with forest })
  | (.ok replacement, forest) =>
      let replaced : Sheet :=
        { sheet with
          forest := forest.removeTree node
          listed := sheet.listed.replace node replacement }
      let (outcome, merged) := replaced.mergeAll others
      (outcome.map fun _ => true, merged.prune.refreshRoot)

/-- Replaces an expression by those of a text.  Without a text, or with a blank
one, the expression is removed. -/
def replace (sheet : Sheet) (node : Handle) (text : Option String) :
    Except SheetError Bool × Sheet :=
  if node ∈ sheet.listed then
    match text.filter fun text => !Text.allBlank text.toList with
    | none => (.ok (sheet.remove node).1, (sheet.remove node).2)
    | some text =>
        let (exprs, table) := sheet.dialect.readAll sheet.table text
        let sheet := sheet.withTable table
        match exprs with
        | .error error => (.error (.read error), sheet)
        | .ok [] => (.ok (sheet.remove node).1, (sheet.remove node).2)
        | .ok (first :: others) => sheet.replaceBy node first others
  else (.error .notListed, sheet)

/-- Enters the sheet's own text anew, with numbers of another kind.  What cannot
be written in that kind is lost.  The answer tells whether the kind changed. -/
def setKind (sheet : Sheet) (kind : Kind) : Except SheetError Bool × Sheet :=
  if kind = sheet.kind then (.ok false, sheet)
  else
    let text := sheet.text
    let cleared : Sheet := { sheet.clear with dialect := { sheet.dialect with kind } }
    if text.isEmpty then (.ok true, cleared)
    else
      let (outcome, entered) := cleared.enter text
      (outcome.map fun _ => true, entered)

end Worksheet.Sheet
