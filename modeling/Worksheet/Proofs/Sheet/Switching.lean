import Worksheet.Proofs.Sheet.Skipping

/-!
# Switching the kind of numbers

A sheet that turns to another kind of numbers enters its own text anew.  Its forest has
slots that were taken and given back before, so that the new trees stand in other nodes
than those of a new sheet.  Nothing that can be told of the expressions and the variables
depends on that.
-/

namespace Worksheet.Sheet

variable {sheet other : Sheet}

/-- Both sheets are in order, with the same dialect, expressions and variables.  The nodes
of their trees may be different ones. -/
structure Resembles (sheet other : Sheet) : Prop where
  holds : sheet.Holds other.dialect other.exprs other.table
  rooted : other.Rooted

namespace Resembles

theorem of_holds {dialect : Dialect} {exprs : List Expr} {table : Variables}
    (holds : sheet.Holds dialect exprs table) (holds' : other.Holds dialect exprs table) :
    sheet.Resembles other := by
  refine ⟨?_, holds'.rooted⟩
  rw [holds'.dialect, holds'.exprs, holds'.table]
  exact holds

theorem withTable (same : sheet.Resembles other) (table : Variables) :
    (sheet.withTable table).Resembles (other.withTable table) :=
  of_holds (same.holds.withTable table) (same.rooted.holds.withTable table)

theorem refreshRoot (same : sheet.Resembles other) :
    sheet.refreshRoot.Resembles other.refreshRoot :=
  of_holds same.holds.refreshRoot same.rooted.holds.refreshRoot

theorem map_expr? (same : sheet.Resembles other) :
    sheet.listed.map (fun node => (sheet.forest.tree node).expr?) =
      other.listed.map fun node => (other.forest.tree node).expr? := by
  rw [same.holds.rooted.map_expr?, same.rooted.map_expr?, same.holds.exprs]

theorem grows (same : sheet.Resembles other) {nodes nodes' : List Handle} {new : List Expr}
    {after after' : Sheet} (grows : sheet.Grows nodes new after)
    (grows' : other.Grows nodes' new after') (table : after.table = after'.table) :
    after.Resembles after' := by
  have holds := grows.holds same.holds.rooted
  rw [same.holds.dialect, same.holds.exprs, table] at holds
  exact of_holds holds (grows'.holds same.rooted)

end Resembles

theorem Grows.isEmpty_nodes {nodes : List Handle} {new : List Expr} {after : Sheet}
    (grows : sheet.Grows nodes new after) : nodes.isEmpty = new.isEmpty := by
  have same := congrArg List.isEmpty grows.found
  rwa [List.isEmpty_map, List.isEmpty_map] at same

/-! ### Entering -/

/-- Merging is told apart by neither slots nor generations, whether or not it is refused. -/
theorem Resembles.merge (same : sheet.Resembles other) {expr : Expr}
    (readable : expr.Readable sheet.kind) :
    (sheet.merge expr).1 = (other.merge expr).1 ∧
      (sheet.merge expr).2.Resembles (other.merge expr).2 := by
  have readable' : expr.Readable other.kind := by
    rw [kind, ← same.holds.dialect]
    exact readable
  cases entered : other.table.entered expr with
  | ok table =>
      have entered' : sheet.table.entered expr = .ok table := same.holds.table ▸ entered
      obtain ⟨nodes, new, after, done, grows, inserted, tables⟩ :=
        same.holds.rooted.merge_of_entered readable entered'
      obtain ⟨nodes', new', after', done', grows', inserted', tables'⟩ :=
        same.rooted.merge_of_entered readable' entered
      rw [same.holds.exprs, inserted'] at inserted
      cases List.append_cancel_left inserted
      rw [done, done', grows.isEmpty_nodes, grows'.isEmpty_nodes]
      exact ⟨rfl, same.grows grows grows' (tables.trans tables'.symm)⟩
  | error fault =>
      have refused : sheet.table.entered expr = .error fault := same.holds.table ▸ entered
      obtain ⟨after, done, grows, tables⟩ := same.holds.rooted.merge_of_refused readable refused
      obtain ⟨after', done', grows', tables'⟩ := same.rooted.merge_of_refused readable' entered
      rw [done, done']
      refine ⟨rfl, same.grows grows grows' ?_⟩
      rw [tables, tables', same.holds.table]

theorem Resembles.enterSegment (same : sheet.Resembles other) (segment : List Char) :
    (sheet.enterSegment segment).1 = (other.enterSegment segment).1 ∧
      (sheet.enterSegment segment).2.Resembles (other.enterSegment segment).2 := by
  cases read : Expr.read other.dialect.kind segment with
  | error error =>
      have read' : Expr.read sheet.kind segment = .error error := by
        rw [kind, same.holds.dialect]
        exact read
      rw [enterSegment_of_error read, enterSegment_of_error read', same.holds.dialect,
        same.holds.table]
      exact ⟨rfl, same.withTable _⟩
  | ok expr =>
      have means' : sheet.dialect.Means segment expr := by
        rw [same.holds.dialect]
        exact read
      rw [enterSegment_of_means read, enterSegment_of_means means', same.holds.table]
      exact (same.withTable _).merge (Expr.readable_of_read means')

theorem Resembles.enterSegments (same : sheet.Resembles other) (segments : List (List Char)) :
    (sheet.enterSegments segments).1 = (other.enterSegments segments).1 ∧
      (sheet.enterSegments segments).2.1 = (other.enterSegments segments).2.1 ∧
      (sheet.enterSegments segments).2.2.Resembles (other.enterSegments segments).2.2 := by
  induction segments generalizing sheet other with
  | nil => exact ⟨rfl, rfl, same⟩
  | cons segment rest inductionHypothesis =>
      obtain ⟨answers, same'⟩ := same.enterSegment segment
      rcases step : sheet.enterSegment segment with ⟨answer, middle⟩
      rcases step' : other.enterSegment segment with ⟨answer', middle'⟩
      rw [step, step'] at answers same'
      cases answers
      cases answer with
      | error error =>
          rw [enterSegments_of_error step, enterSegments_of_error step']
          exact ⟨rfl, rfl, same'⟩
      | ok grew =>
          obtain ⟨outcomes, growths, alike⟩ := inductionHypothesis same'
          rw [enterSegments_of_ok step, enterSegments_of_ok step', outcomes, growths]
          exact ⟨rfl, rfl, alike⟩

/-- Entering a text says and does the same to two sheets that resemble each other. -/
theorem Resembles.enter (same : sheet.Resembles other) (text : String) :
    (sheet.enter text).1 = (other.enter text).1 ∧
      (sheet.enter text).2.Resembles (other.enter text).2 := by
  obtain ⟨outcomes, growths, alike⟩ := same.enterSegments (other.dialect.segments text)
  rw [Sheet.enter, Sheet.enter, same.holds.dialect]
  dsimp only
  rw [outcomes, growths]
  refine ⟨rfl, ?_⟩
  split
  next => exact alike.refreshRoot
  next => exact alike

theorem enter_eq (sheet : Sheet) (text : String) :
    ∃ forest listed version,
      (sheet.enter text).2 = { sheet with forest, listed, version } := by
  obtain ⟨forest, listed, same⟩ := sheet.enterSegments_eq (sheet.dialect.segments text)
  rw [enter_eq_enterSegments, same]
  split
  next => exact ⟨_, _, _, rfl⟩
  next => exact ⟨_, _, _, rfl⟩

/-! ### Switching -/

/-- Clearing leaves nothing behind that entering can tell from a new sheet. -/
theorem Rooted.clear_resembles_new (rooted : sheet.Rooted) (kind : Kind) :
    ({ sheet.clear with dialect := { sheet.dialect with kind } } : Sheet).Resembles
      (new { sheet.dialect with kind }) :=
  .of_holds (rooted.holds_clear.withDialect _) (holds_new _)

theorem setKind_of_ne {kind : Kind} (different : kind ≠ sheet.kind) (filled : sheet.text ≠ "") :
    let cleared : Sheet := { sheet.clear with dialect := { sheet.dialect with kind } }
    sheet.setKind kind =
      ((cleared.enter sheet.text).1.map fun _ => true, (cleared.enter sheet.text).2) := by
  intro cleared
  rw [setKind, if_neg different]
  dsimp only
  rw [if_neg (by rwa [String.isEmpty_iff])]

/-- What the text has become in the sheet it has come from, beside a new sheet. -/
theorem Rooted.setKind_resembles (rooted : sheet.Rooted) {kind : Kind}
    (different : kind ≠ sheet.kind) (filled : sheet.text ≠ "") :
    ∃ answer after, sheet.setKind kind = (Except.map (fun _ => true) answer, after) ∧
      ((new { sheet.dialect with kind }).enter sheet.text).1 = answer ∧
      after.Resembles ((new { sheet.dialect with kind }).enter sheet.text).2 ∧
      after.dialect = { sheet.dialect with kind } ∧
      after.filters = sheet.filters ∧ after.file = sheet.file := by
  let cleared : Sheet := { sheet.clear with dialect := { sheet.dialect with kind } }
  obtain ⟨answers, same⟩ := (rooted.clear_resembles_new kind).enter sheet.text
  obtain ⟨forest, listed, version, kept⟩ := enter_eq cleared sheet.text
  refine ⟨_, _, setKind_of_ne different filled, answers.symm, same, ?_⟩
  rw [kept]
  exact ⟨rfl, rfl, rfl⟩

/-- Turning a sheet to another kind of numbers is entering its text into a new sheet of that kind,
but for the separator, the filters and the file, which are kept. -/
theorem Attainable.setKind_fresh (attainable : sheet.Attainable) {kind : Kind}
    (different : kind ≠ sheet.kind) (filled : sheet.text ≠ "") :
    let switched := sheet.setKind kind
    let fresh := (new { sheet.dialect with kind }).enter sheet.text
    switched.1 = fresh.1.map (fun _ => true) ∧
    switched.2.dialect = { sheet.dialect with kind } ∧
    fresh.2.dialect = { sheet.dialect with kind } ∧
    (∃ exprs : List Expr,
      switched.2.listed.map (fun node => (switched.2.forest.tree node).expr?) =
        exprs.map some ∧
      fresh.2.listed.map (fun node => (fresh.2.forest.tree node).expr?) = exprs.map some) ∧
    switched.2.table = fresh.2.table ∧
    (∀ after ∈ [switched.2, fresh.2],
      after.forest.node? after.root = some (.group after.listed) ∧
      after.forest.parent? after.root = none ∧ after.listed.Nodup) ∧
    switched.2.filters = sheet.filters ∧ switched.2.file = sheet.file := by
  intro switched fresh
  have intact := attainable.intact
  have switchedIntact : switched.2.Intact := intact.edits (sheet.edits_setKind kind)
  have freshIntact : fresh.2.Intact := (intact_new _).edits (edits_enter _ sheet.text)
  obtain ⟨forest, listed, version, kept⟩ := enter_eq (new { sheet.dialect with kind }) sheet.text
  have dialect : fresh.2.dialect = { sheet.dialect with kind } := congrArg Sheet.dialect kept
  obtain ⟨answer, after, done, answers, same, turned, filters, file⟩ :=
    intact.rooted.setKind_resembles different filled
  rw [show sheet.setKind kind = switched from rfl] at done
  rw [show (new { sheet.dialect with kind }).enter sheet.text = fresh from rfl] at answers same
  clear_value switched fresh
  subst done answers
  have exprs := freshIntact.rooted.map_expr?
  have whole {last : Sheet} (intact : last.Intact) :
      last.forest.node? last.root = some (.group last.listed) ∧
        last.forest.parent? last.root = none ∧ last.listed.Nodup :=
    ⟨intact.mirrored, intact.rooted.linked.group_parent? _ _ intact.mirrored,
      intact.rooted.nodup_listed⟩
  refine ⟨rfl, turned, dialect, ⟨fresh.2.exprs, same.map_expr?.trans exprs, exprs⟩,
    same.holds.table, ?_, filters, file⟩
  simp only [List.mem_cons, List.not_mem_nil, or_false, forall_eq_or_imp, forall_eq]
  exact ⟨whole switchedIntact, whole freshIntact⟩

/-- A fraction is no integer, and ends the entering after two expressions and four names.
Slots have been taken and given back before, so that the nodes are not those of a new
sheet. -/
theorem Attainable.setKind_fresh_until_fraction :
    let sheet := (new ⟨.double, '|'⟩).acts
      [.own (.enter (some "a - b | x = 2 | c ^ a")), .own (.remove ⟨6, 0⟩),
        .own (.enter (some "d = 1.5 | e")), .table (.declare "f"),
        .own (.filterName (some "a"))]
    let switched := sheet.setKind .int
    let fresh := (new { sheet.dialect with kind := .int }).enter sheet.text
    sheet.Attainable ∧ Kind.int ≠ sheet.kind ∧ sheet.text = "a - b|c ^ a|d = 1.5|e" ∧
      switched.1 = .error (.read (.invalidLiteral "1.5" .int)) ∧
      switched.2.renderings = ["a - b", "c ^ a"] ∧ switched.2.listed ≠ fresh.2.listed ∧
      switched.1 = fresh.1.map (fun _ => true) ∧ switched.2.table = fresh.2.table ∧
      fresh.2.table.entries = [("a", none), ("b", none), ("c", none), ("d", none)] ∧
      switched.2.filters = sheet.filters := by
  intro sheet switched fresh
  have attainable : sheet.Attainable := ⟨_, _, rfl⟩
  have different : Kind.int ≠ sheet.kind := by decide +kernel
  have text : sheet.text = "a - b|c ^ a|d = 1.5|e" := by decide +kernel
  have filled : sheet.text ≠ "" := by
    rw [text]
    decide
  obtain ⟨answers, -, -, -, tables, -, filters, -⟩ :=
    Attainable.setKind_fresh attainable different filled
  have run : switched.1 = .error (.read (.invalidLiteral "1.5" .int)) ∧
      switched.2.renderings = ["a - b", "c ^ a"] ∧ switched.2.listed ≠ fresh.2.listed ∧
      fresh.2.table.entries = [("a", none), ("b", none), ("c", none), ("d", none)] := by
    decide +kernel
  exact ⟨attainable, different, text, run.1, run.2.1, run.2.2.1, answers, tables, run.2.2.2,
    filters⟩

end Worksheet.Sheet
