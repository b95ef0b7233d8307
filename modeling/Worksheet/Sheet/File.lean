import Worksheet.Sheet.Enter

/-!
Loading and saving sheets.

A file has one expression or more on each line.  A first line that begins with
the word `type` ends in the name of the kind of numbers.
-/

namespace Worksheet.Sheet

def typeWord : String := "type"

/-! ### Saving -/

def fileLines (sheet : Sheet) : List String :=
  (typeWord ++ " " ++ sheet.kind.name) :: sheet.lines

def fileText (sheet : Sheet) : String :=
  String.join (sheet.fileLines.map (· ++ "\n"))

def save (sheet : Sheet) (folder : Folder) (name : String) :
    Except SheetError (Sheet × Folder) :=
  match folder.write name sheet.fileText.toUTF8 with
  | .error fault => .error (.folder fault)
  | .ok folder => .ok ({ sheet with file := some name }.touched, folder)

/-- Saves to the file that the sheet was loaded from or saved to last. -/
def saveCurrent (sheet : Sheet) (folder : Folder) : Except SheetError (Sheet × Folder) :=
  match sheet.file with
  | none => .error .nothingGiven
  | some name => sheet.save folder name

/-! ### Loading -/

def enterLines (sheet : Sheet) : List (List Char) → Except SheetError Unit × Sheet
  | [] => (.ok (), sheet)
  | line :: lines =>
      match sheet.enter (String.ofList line) with
      | (.error error, sheet) => (.error error, sheet)
      | (.ok _, sheet) => sheet.enterLines lines

/-- The last word of a line that begins with the word `type`. -/
def typeName? (line : List Char) : Option String :=
  match Text.words line with
  | [] => none
  | first :: others =>
      if first = typeWord.toList then some (String.ofList (others.getLastD first)) else none

/-- Switches to the kind of that name.  A sheet that is added to keeps its kind. -/
def applyType (sheet : Sheet) (name : String) (append : Bool) : Except SheetError Unit × Sheet :=
  match Kind.ofName? name with
  | none => (.error (.unknownKind name), sheet)
  | some kind =>
      if append && kind ≠ sheet.kind then (.error (.unknownKind name), sheet)
      else
        let (outcome, sheet) := sheet.setKind kind
        (outcome.map fun _ => (), sheet)

/-- Enters the lines of a file, the first one perhaps a type line. -/
def enterFile (sheet : Sheet) (append : Bool) (lines : List (List Char)) :
    Except SheetError Unit × Sheet :=
  match lines with
  | [] => (.ok (), sheet)
  | first :: others =>
      match typeName? first with
      | none => sheet.enterLines lines
      | some name =>
          match sheet.applyType name append with
          | (.error error, sheet) => (.error error, sheet)
          | (.ok (), sheet) => sheet.enterLines others

/-- Whether two sheets show the same expressions and values. -/
def sameContent (left right : Sheet) : Bool :=
  left.renderings = right.renderings && left.table.agrees right.table

/-- Loads a file in place of the sheet's content, or adds it.  The answer tells
whether expressions or variables are other than before the lines were entered. -/
def load (sheet : Sheet) (folder : Folder) (name : String) (append : Bool) :
    Except SheetError Bool × Sheet :=
  match folder.read name with
  | .error fault => (.error (.folder fault), sheet)
  | .ok content =>
      let before := if append then sheet else sheet.clear
      match before.enterFile append (Text.filledLines content.toList) with
      | (.error error, sheet) => (.error error, sheet)
      | (.ok (), sheet) =>
          (.ok (!sheet.sameContent before), { sheet with file := some name }.touched)

end Worksheet.Sheet
