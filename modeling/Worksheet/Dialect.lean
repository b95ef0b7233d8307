import Worksheet.Expr.Read
import Worksheet.Text.Split
import Worksheet.Variables.Basic

/-!
Reading texts of several expressions.

A dialect fixes the kind of the numbers and the character between expressions.
The names of a segment are registered as the segment is read, whether or not it
turns out to be an expression.
-/

namespace Worksheet

/-- Registers the names that are not registered yet. -/
def Variables.declareAll (table : Variables) (names : List String) : Variables :=
  names.foldl declare table

structure Dialect where
  kind : Kind
  separator : Char
deriving DecidableEq, Repr

namespace Dialect

def standardSeparator : Char := ';'

def standard : Dialect := ⟨Kind.standard, standardSeparator⟩

def segments (dialect : Dialect) (text : String) : List (List Char) :=
  Text.split (· = dialect.separator) text.toList

def declared (dialect : Dialect) (table : Variables) (segment : List Char) : Variables :=
  table.declareAll (Expr.namesRead dialect.kind segment)

/-- The expressions of the segments, up to the first segment that fails. -/
def readSegments (dialect : Dialect) (table : Variables) :
    List (List Char) → Except ReadError (List Expr) × Variables
  | [] => (.ok [], table)
  | segment :: segments =>
      let table := dialect.declared table segment
      match Expr.read dialect.kind segment with
      | .error error => (.error error, table)
      | .ok expr =>
          let (exprs, table) := dialect.readSegments table segments
          (exprs.map (expr :: ·), table)

def readAll (dialect : Dialect) (table : Variables) (text : String) :
    Except ReadError (List Expr) × Variables :=
  dialect.readSegments table (dialect.segments text)

def readGiven (dialect : Dialect) (table : Variables) (text : Option String) :
    Except ReadError (List Expr) × Variables :=
  match text with
  | none => (.error .nothingGiven, table)
  | some text => dialect.readAll table text

end Dialect

end Worksheet
