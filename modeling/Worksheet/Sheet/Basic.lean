import Worksheet.Dialect
import Worksheet.Forest.Edit
import Worksheet.Forest.Render
import Worksheet.Sheet.Folder

/-!
A sheet: a list of expressions that share their variables.

The listed trees live in one forest, below a root group that holds them in the
order of the list.  Filters choose among the listed expressions without changing
the list.  The version counts the changes that a reader of the sheet should see.
-/

namespace Worksheet

inductive SheetError where
  | read (error : ReadError)
  | fault (fault : Fault)
  | folder (fault : FolderFault)
  | notListed
  | unknownKind (name : String)
  | nothingGiven
deriving DecidableEq

def SheetError.message : SheetError → String
  | read error => error.message
  | fault cause => cause.message
  | folder .notFound => "NotFound"
  | folder .invalidData => "InvalidData"
  | notListed => "expression not found in model"
  | unknownKind name => s!"unsupported number kind: {name}"
  | nothingGiven => "null argument"

structure Filters where
  /-- An operator whose symbol has to occur in the text. -/
  operator : Option Operator
  /-- Terminals that have to occur. -/
  terminals : Terminals
  /-- Text that has to occur. -/
  name : Option String
deriving DecidableEq, Repr

def Filters.none : Filters := ⟨.none, .all, .none⟩

structure Sheet where
  dialect : Dialect
  forest : Forest
  listed : List Handle
  root : Handle
  filters : Filters
  file : Option String
  version : Nat

namespace Sheet

def new (dialect : Dialect) : Sheet :=
  let (root, forest) := Forest.empty.addEmptyGroup
  { dialect, forest, root, listed := [], filters := .none, file := none, version := 0 }

def kind (sheet : Sheet) : Kind :=
  sheet.dialect.kind

def table (sheet : Sheet) : Variables :=
  sheet.forest.table

def touched (sheet : Sheet) : Sheet :=
  { sheet with version := sheet.version + 1 }

/-! ### Filters -/

def accepts (sheet : Sheet) (node : Handle) : Bool :=
  let text := (sheet.forest.render node).toList
  sheet.filters.operator.all (fun operator => Text.occurs [operator.symbol] text) &&
    (sheet.filters.terminals == .all ||
      sheet.forest.containsTerminal node sheet.filters.terminals) &&
    sheet.filters.name.all fun name => Text.occurs name.toList text

def shown (sheet : Sheet) : List Handle :=
  sheet.listed.filter sheet.accepts

def setFilters (sheet : Sheet) (filters : Filters) : Sheet :=
  { sheet with filters }.touched

def filterOperator (sheet : Sheet) (operator : Option Operator) : Sheet :=
  sheet.setFilters { sheet.filters with operator }

def filterTerminals (sheet : Sheet) (terminals : Terminals) : Sheet :=
  sheet.setFilters { sheet.filters with terminals }

def filterName (sheet : Sheet) (name : Option String) : Sheet :=
  sheet.setFilters { sheet.filters with name }

/-! ### Text -/

def assignmentFor? (sheet : Sheet) (name : String) : Option Handle :=
  sheet.listed.find? fun node => sheet.forest.target? node = some name

def renderings (sheet : Sheet) : List String :=
  sheet.listed.map sheet.forest.render

/-- Assignments for the valued variables to which no listed expression assigns. -/
def impliedAssignments (sheet : Sheet) : List String :=
  (sheet.table.valued.filter fun (name, _) => (sheet.assignmentFor? name).isNone).map
    fun (name, value) => name ++ " = " ++ value.source

/-- What has to be entered to get the sheet's expressions and values again. -/
def lines (sheet : Sheet) : List String :=
  sheet.impliedAssignments ++ sheet.renderings

def text (sheet : Sheet) : String :=
  sheet.dialect.separator.toString.intercalate sheet.lines

/-! ### Clearing -/

/-- Makes the root group hold the listed expressions again. -/
def refreshRoot (sheet : Sheet) : Sheet :=
  let cleared := sheet.forest.detachMembers sheet.root
  { sheet with
    forest := sheet.listed.foldl (fun forest node => forest.adopt sheet.root node) cleared }.touched

def clear (sheet : Sheet) : Sheet :=
  let (root, forest) := Forest.addEmptyGroup { sheet.forest.clear with table := .empty }
  { sheet with forest, root, listed := [] }.touched

def resetFile (sheet : Sheet) : Sheet :=
  { sheet with file := none }.touched

end Sheet

end Worksheet
