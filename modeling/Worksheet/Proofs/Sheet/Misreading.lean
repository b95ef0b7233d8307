import Worksheet.Proofs.Expr.Acceptance
import Worksheet.Proofs.Sheet.Versions

/-!
# Texts that are not read

The pieces of a text are read from left to right, and each registers its names as it is
read.  Where one of them is not an expression the reading ends, and what has been registered
by then stays.
-/

namespace Worksheet

theorem Variables.declareAll_eq_self_iff {table : Variables} {names : List String} :
    table.declareAll names = table ↔ ∀ name ∈ names, table.isRegistered name = true := by
  constructor
  · intro same name member
    rw [← same, isRegistered_declareAll]
    exact .inl member
  · exact declareAll_of_isRegistered

namespace Dialect

variable {dialect : Dialect} {segments : List (List Char)} {error : ReadError}
  {names : List String} {table after : Variables}

/-- Reading the pieces ends with the error.  The names are those of the pieces before, and
those that are read in the piece where it ends. -/
inductive Misreads (dialect : Dialect) : List (List Char) → ReadError → List String → Prop where
  | here {segment : List Char} {rest : List (List Char)} {error : ReadError}
      (read : Expr.read dialect.kind segment = .error error) :
      Misreads dialect (segment :: rest) error (Expr.namesRead dialect.kind segment)
  | later {segment : List Char} {rest : List (List Char)} {expr : Expr} {error : ReadError}
      {names : List String} (means : dialect.Means segment expr)
      (misreads : Misreads dialect rest error names) :
      Misreads dialect (segment :: rest) error (expr.names ++ names)

theorem Misreads.readSegments (misreads : dialect.Misreads segments error names)
    (table : Variables) :
    dialect.readSegments table segments = (.error error, table.declareAll names) := by
  induction misreads generalizing table with
  | here read =>
      rw [Dialect.readSegments, read]
      rfl
  | @later segment rest expr error names means _ inductionHypothesis =>
      have read : Expr.read dialect.kind segment = .ok expr := means
      rw [Dialect.readSegments, read]
      dsimp only
      rw [inductionHypothesis, means.declared_eq, Variables.declareAll_append]
      rfl

theorem exists_misreads (failed : (dialect.readSegments table segments).1 = .error error) :
    ∃ names, dialect.Misreads segments error names := by
  induction segments generalizing table with
  | nil => cases failed
  | cons segment rest inductionHypothesis =>
      rw [Dialect.readSegments] at failed
      cases read : Expr.read dialect.kind segment with
      | error reason =>
          rw [read] at failed
          cases failed
          exact ⟨_, .here read⟩
      | ok expr =>
          rw [read] at failed
          dsimp only at failed
          cases remaining :
              (dialect.readSegments (dialect.declared table segment) rest).1 with
          | ok exprs =>
              rw [remaining] at failed
              cases failed
          | error reason =>
              rw [remaining] at failed
              cases failed
              obtain ⟨names, misreads⟩ := inductionHypothesis remaining
              exact ⟨_, .later read misreads⟩

/-- A piece that is refused for its form has no names, so only the pieces before it count. -/
theorem Misreads.names_of_isFormal (misreads : dialect.Misreads segments error names)
    (formal : error.isFormal = true) :
    ∃ done segment rest exprs, segments = done ++ segment :: rest ∧
      List.Forall₂ dialect.Means done exprs ∧ names = exprs.flatMap Expr.names := by
  induction misreads with
  | @here segment rest error read =>
      have underivable := (Expr.exists_isFormal_iff dialect.kind segment).mp ⟨error, read, formal⟩
      exact ⟨[], segment, rest, [], rfl, .nil, Expr.namesRead_of_not_calculation underivable⟩
  | later means _ inductionHypothesis =>
      obtain ⟨done, segment, rest, exprs, rfl, read, rfl⟩ := inductionHypothesis formal
      exact ⟨_ :: done, segment, rest, _ :: exprs, rfl, .cons means read, rfl⟩

end Dialect

namespace Sheet

variable {sheet : Sheet} {table : Variables}

theorem withTable_eq_self_iff : sheet.withTable table = sheet ↔ table = sheet.table :=
  ⟨fun same => congrArg Sheet.table same, fun same => by rw [same]; rfl⟩

/-- A listed expression stays if the text that is to replace it is not read.  Names that have been
read by then are registered without a value, and nothing else is other than before. -/
theorem replace_misread (sheet : Sheet) {node : Handle} (listed : node ∈ sheet.listed)
    {text : String} (filled : Text.allBlank text.toList = false) {error : ReadError}
    (failed : (sheet.dialect.readAll sheet.table text).1 = .error error) :
    let after := (sheet.replace node (some text)).2
    (sheet.replace node (some text)).1 = .error (.read error) ∧
    ∃ names, sheet.dialect.Misreads (sheet.dialect.segments text) error names ∧
      after = sheet.withTable (sheet.table.declareAll names) ∧
      (∀ name, after.table.isRegistered name = true ↔
        name ∈ names ∨ sheet.table.isRegistered name = true) ∧
      (∀ name, after.table.value? name = sheet.table.value? name) ∧
      (after = sheet ↔ ∀ name ∈ names, sheet.table.isRegistered name = true) ∧
      (error.isFormal = true → ∃ done segment rest exprs,
        sheet.dialect.segments text = done ++ segment :: rest ∧
        List.Forall₂ sheet.dialect.Means done exprs ∧ names = exprs.flatMap Expr.names) := by
  intro after
  obtain ⟨names, misreads⟩ := Dialect.exists_misreads failed
  have read : sheet.dialect.readAll sheet.table text =
      (.error error, sheet.table.declareAll names) := misreads.readSegments sheet.table
  have replaced : sheet.replace node (some text) =
      (.error (.read error), sheet.withTable (sheet.table.declareAll names)) := by
    rw [replace, if_pos listed, filter_eq_some_of_filled filled]
    dsimp only
    rw [read]
  have left : after = sheet.withTable (sheet.table.declareAll names) := congrArg Prod.snd replaced
  refine ⟨congrArg Prod.fst replaced, names, misreads, left, fun name => ?_, fun name => ?_, ?_,
    misreads.names_of_isFormal⟩
  · rw [left]
    exact Variables.isRegistered_declareAll sheet.table names name
  · rw [left]
    exact Variables.value?_declareAll sheet.table names name
  · rw [left, withTable_eq_self_iff, Variables.declareAll_eq_self_iff]

/-- The second piece fails at its literal, by when one new name has been read. -/
theorem replace_misread_literal :
    let sheet := (new .standard).run [.enter (some "a = 1; b")]
    let text := "b + a; c * 99999999999 - d; e"
    let after := (sheet.replace ⟨4, 0⟩ (some text)).2
    sheet.Reachable ∧ sheet.renderings = ["a = 1", "b"] ∧ after.renderings = ["a = 1", "b"] ∧
      (sheet.replace ⟨4, 0⟩ (some text)).1 =
        .error (.read (.invalidLiteral "99999999999" .int)) ∧
      after.table.entries = [("a", some (.int 1)), ("b", none), ("c", none)] ∧
      after.version = sheet.version ∧ after ≠ sheet := by
  intro sheet text after
  have evaluated : (⟨4, 0⟩ : Handle) ∈ sheet.listed ∧ Text.allBlank text.toList = false ∧
      (sheet.dialect.readAll sheet.table text).1 = .error (.invalidLiteral "99999999999" .int) ∧
      sheet.renderings = ["a = 1", "b"] ∧ after.renderings = ["a = 1", "b"] ∧
      after.table.entries = [("a", some (.int 1)), ("b", none), ("c", none)] ∧
      sheet.table.isRegistered "c" = false ∧ after.table.isRegistered "c" = true := by
    decide +kernel
  obtain ⟨listed, filled, failed, before, kept, entries, unknown, known⟩ := evaluated
  obtain ⟨refused, names, -, left, -⟩ := replace_misread sheet listed filled failed
  have version : after.version = sheet.version := (congrArg Sheet.version left).trans rfl
  refine ⟨⟨_, _, rfl⟩, before, kept, refused, entries, version, fun still => ?_⟩
  cases unknown.symm.trans ((congrArg (·.table.isRegistered "c") still).symm.trans known)

/-- The second piece of a text is not read, and yet the name in the first one stays
registered. -/
theorem registered_by_misreading :
    let sheet := (new .standard).run [.enter (some "a")]
    let attempt := sheet.replace ⟨1, 0⟩ (some "x; )")
    sheet.Reachable ∧ sheet.renderings = ["a"] ∧
      attempt.1 = .error (.read .unbalancedParentheses) ∧
      sheet.table.entries = [("a", none)] ∧
      attempt.2.table.entries = [("a", none), ("x", none)] := by
  intro sheet attempt
  exact ⟨⟨_, _, rfl⟩, by decide +kernel, by decide +kernel, by decide +kernel, by decide +kernel⟩

end Sheet

end Worksheet
