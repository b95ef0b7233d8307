import Worksheet.Proofs.Expr.Names
import Worksheet.Proofs.Expr.Replay
import Worksheet.Proofs.Sheet.Replaying
import Worksheet.Proofs.Sheet.Structure

/-!
# Segments of a text

Entering a text is replaying its segments up to the first one that fails.  The segments
before it add their new expressions to the list, in new nodes, and give the variables the
values of the replay.
-/

namespace Worksheet

/-! ### Pieces of a text -/

namespace Text

variable {cut : Char → Bool}

theorem uncut_of_mem_split {text piece : List Char} (member : piece ∈ split cut text) :
    ∀ c ∈ piece, cut c = false := by
  induction text generalizing piece with
  | nil =>
      rw [split_nil, List.mem_singleton] at member
      simp [member]
  | cons c rest inductionHypothesis =>
      cases here : cut c with
      | true =>
          rw [split_cons_cut here] at member
          rcases List.mem_cons.mp member with rfl | later
          · simp
          · exact inductionHypothesis later
      | false =>
          rw [split_cons_keep here] at member
          rcases List.mem_cons.mp member with rfl | later
          · intro d inside
            rcases List.mem_cons.mp inside with rfl | inside
            · exact here
            · exact inductionHypothesis List.mem_cons_self d inside
          · exact inductionHypothesis (List.mem_cons_of_mem _ later)

theorem intercalate_split {c : Char} (only : ∀ d, cut d = true → d = c) (text : List Char) :
    [c].intercalate (split cut text) = text := by
  induction text with
  | nil => rfl
  | cons d rest inductionHypothesis =>
      cases here : cut d with
      | true =>
          rw [split_cons_cut here, only d here]
          exact congrArg (c :: ·) inductionHypothesis
      | false =>
          rw [split_cons_keep here]
          rw [split] at inductionHypothesis
          cases later : (splitFirst cut rest).2 with
          | nil =>
              rw [later] at inductionHypothesis
              exact congrArg (d :: ·) inductionHypothesis
          | cons piece pieces =>
              rw [later] at inductionHypothesis
              exact congrArg (d :: ·) inductionHypothesis

end Text

namespace Dialect

variable {dialect : Dialect} {table : Variables} {segment : List Char} {error : SheetError}

theorem segments_spec (dialect : Dialect) (text : String) :
    [dialect.separator].intercalate (dialect.segments text) = text.toList ∧
      ∀ segment ∈ dialect.segments text, dialect.separator ∉ segment := by
  refine ⟨Text.intercalate_split (fun c => of_decide_eq_true) text.toList, ?_⟩
  intro segment member inside
  have uncut := Text.uncut_of_mem_split member dialect.separator inside
  exact of_decide_eq_false uncut rfl

/-- The segment is a text of the expression. -/
def Means (dialect : Dialect) (segment : List Char) (expr : Expr) : Prop :=
  Expr.read dialect.kind segment = .ok expr

/-- Why a segment cannot be entered: it is not read, or what it means cannot be entered. -/
inductive Refuses (dialect : Dialect) (table : Variables) (segment : List Char) :
    SheetError → Prop where
  | unread {error : ReadError} (read : Expr.read dialect.kind segment = .error error) :
      Refuses dialect table segment (.read error)
  | unmade {expr : Expr} {fault : Fault} (means : dialect.Means segment expr)
      (refused : table.entered expr = .error fault) :
      Refuses dialect table segment (.fault fault)

theorem Means.declared_eq {expr : Expr} (means : dialect.Means segment expr) (table : Variables) :
    dialect.declared table segment = table.declareAll expr.names := by
  rw [declared, Expr.namesRead_of_read means]

theorem Means.unique {expr other : Expr}
    (means : dialect.Means segment expr) (means' : dialect.Means segment other) : expr = other :=
  Except.ok.inj (means.symm.trans means')

theorem readable_of_means {segments : List (List Char)} {exprs : List Expr}
    (means : List.Forall₂ dialect.Means segments exprs) :
    ∀ expr ∈ exprs, expr.Readable dialect.kind := by
  induction means with
  | nil => simp
  | cons here _ inductionHypothesis =>
      exact List.forall_mem_cons.mpr ⟨Expr.readable_of_read here, inductionHypothesis⟩

end Dialect

namespace Sheet

variable {sheet middle after : Sheet} {nodes others : List Handle} {new further : List Expr}

/-! ### Entering a segment -/

/-- The segments have been entered one after the other: what they say has been replayed,
and what is new of it has been listed. -/
structure Entered (sheet : Sheet) (segments : List (List Char)) (exprs : List Expr)
    (nodes : List Handle) (new : List Expr) (after : Sheet) : Prop
    extends sheet.Grows nodes new after where
  means : List.Forall₂ sheet.dialect.Means segments exprs
  replayed : sheet.table.replay exprs = .ok after.table
  inserted : exprs.foldl Expr.insertNew sheet.exprs = sheet.exprs ++ new

theorem Rooted.entered_nil (rooted : sheet.Rooted) : sheet.Entered [] [] [] [] sheet :=
  ⟨rooted.grows_refl, .nil, rfl, (List.append_nil _).symm⟩

theorem Entered.merged {segments : List (List Char)} {exprs : List Expr}
    (entered : sheet.Entered segments exprs nodes new after) :
    sheet.Merged exprs nodes new after :=
  ⟨entered.toGrows, entered.replayed, entered.inserted⟩

theorem Entered.trans {segments rest : List (List Char)} {exprs remaining : List Expr}
    (rooted : sheet.Rooted) (first : sheet.Entered segments exprs nodes new middle)
    (second : middle.Entered rest remaining others further after) :
    sheet.Entered (segments ++ rest) (exprs ++ remaining) (nodes ++ others) (new ++ further)
      after := by
  have merged := first.merged.trans rooted second.merged
  refine ⟨merged.toGrows, ?_, merged.replayed, merged.inserted⟩
  have later := second.means
  rw [first.dialect] at later
  exact List.rel_append first.means later

theorem enterSegment_of_error {segment : List Char} {error : ReadError}
    (read : Expr.read sheet.kind segment = .error error) :
    sheet.enterSegment segment =
      (.error (.read error), sheet.withTable (sheet.dialect.declared sheet.table segment)) := by
  have same : Expr.read (sheet.withTable (sheet.dialect.declared sheet.table segment)).kind
      segment = .error error := read
  rw [enterSegment, same]

theorem enterSegment_of_means {segment : List Char} {expr : Expr}
    (means : sheet.dialect.Means segment expr) :
    sheet.enterSegment segment =
      (sheet.withTable (sheet.table.declareAll expr.names)).merge expr := by
  have same : Expr.read (sheet.withTable (sheet.dialect.declared sheet.table segment)).kind
      segment = .ok expr := means
  rw [enterSegment, same, means.declared_eq]

theorem Rooted.entered_of_means (rooted : sheet.Rooted) {segment : List Char} {expr : Expr}
    (means : sheet.dialect.Means segment expr) {table : Variables}
    (entered : sheet.table.entered expr = .ok table) :
    ∃ nodes new after, sheet.enterSegment segment = (.ok !nodes.isEmpty, after) ∧
      sheet.Entered [segment] [expr] nodes new after := by
  obtain ⟨declared, exprs⟩ := rooted.withTable (sheet.table.declareAll expr.names)
  obtain ⟨nodes, new, after, done, grows, inserted, rfl⟩ :=
    declared.merge_of_entered (Expr.readable_of_read means)
      ((sheet.table.entered_declareAll expr).trans entered)
  rw [exprs] at inserted
  rw [enterSegment_of_means means]
  refine ⟨nodes, new, after, done, (rooted.grows_withTable _).trans grows, .cons means .nil, ?_,
    inserted⟩
  rw [Variables.replay, List.foldlM_cons, entered]
  rfl

theorem Rooted.enterSegment_cases (rooted : sheet.Rooted) (segment : List Char) :
    (∃ expr nodes new after, sheet.enterSegment segment = (.ok !nodes.isEmpty, after) ∧
      sheet.Entered [segment] [expr] nodes new after) ∨
    ∃ error after, sheet.enterSegment segment = (.error error, after) ∧
      sheet.dialect.Refuses sheet.table segment error ∧ sheet.Grows [] [] after ∧
      after.table = sheet.dialect.declared sheet.table segment := by
  cases read : Expr.read sheet.kind segment with
  | error error =>
      exact .inr ⟨.read error, _, enterSegment_of_error read, .unread read,
        rooted.grows_withTable _, rfl⟩
  | ok expr =>
      have means : sheet.dialect.Means segment expr := read
      cases entered : sheet.table.entered expr with
      | ok table => exact .inl ⟨expr, rooted.entered_of_means means entered⟩
      | error fault =>
          have declared := rooted.grows_withTable (sheet.table.declareAll expr.names)
          obtain ⟨after, done, grows, table⟩ :=
            declared.rooted.merge_of_refused (Expr.readable_of_read means)
              ((sheet.table.entered_declareAll expr).trans entered)
          rw [enterSegment_of_means means, means.declared_eq]
          refine .inr ⟨.fault fault, after, done, .unmade means entered, declared.trans grows, ?_⟩
          rw [table]
          exact sheet.table.declareAll_declareAll expr.names

/-! ### Entering a text -/

theorem enterSegments_of_ok {segment : List Char} {grew : Bool}
    (step : sheet.enterSegment segment = (.ok grew, middle)) (rest : List (List Char)) :
    sheet.enterSegments (segment :: rest) =
      ((middle.enterSegments rest).1, grew || (middle.enterSegments rest).2.1,
        (middle.enterSegments rest).2.2) := by
  rw [enterSegments, step]

theorem enterSegments_of_error {segment : List Char} {error : SheetError}
    (step : sheet.enterSegment segment = (.error error, after)) (rest : List (List Char)) :
    sheet.enterSegments (segment :: rest) = (.error error, false, after) := by
  rw [enterSegments, step]

/-- How the entering of segments can end: all of them are entered, or some are, and the
next one is refused. -/
inductive Ends (sheet : Sheet) (segments : List (List Char)) (exprs : List Expr)
    (nodes : List Handle) (new : List Expr) : Except SheetError Unit × Bool × Sheet → Prop where
  | finished {after : Sheet} (entered : sheet.Entered segments exprs nodes new after) :
      Ends sheet segments exprs nodes new (.ok (), !nodes.isEmpty, after)
  | stopped {done rest : List (List Char)} {segment : List Char} {error : SheetError}
      {middle after : Sheet} (split : segments = done ++ segment :: rest)
      (entered : sheet.Entered done exprs nodes new middle)
      (refuses : middle.dialect.Refuses middle.table segment error)
      (spared : middle.Grows [] [] after)
      (registered : after.table = middle.dialect.declared middle.table segment) :
      Ends sheet segments exprs nodes new (.error error, !nodes.isEmpty, after)

theorem Entered.ends {segments rest : List (List Char)} {exprs remaining : List Expr}
    {outcome : Except SheetError Unit × Bool × Sheet} (rooted : sheet.Rooted)
    (entered : sheet.Entered segments exprs nodes new middle)
    (ends : middle.Ends rest remaining others further outcome) :
    sheet.Ends (segments ++ rest) (exprs ++ remaining) (nodes ++ others) (new ++ further)
      (outcome.1, !nodes.isEmpty || outcome.2.1, outcome.2.2) := by
  have grew : (!nodes.isEmpty || !others.isEmpty) = !(nodes ++ others).isEmpty := by
    cases nodes <;> rfl
  cases ends with
  | finished later =>
      dsimp only
      rw [grew]
      exact .finished (entered.trans rooted later)
  | stopped split later refuses spared registered =>
      dsimp only
      rw [grew, split, ← List.append_assoc]
      exact .stopped rfl (entered.trans rooted later) refuses spared registered

/-- Segments are entered up to the first one that is refused. -/
theorem Rooted.enterSegments_ends (rooted : sheet.Rooted) (segments : List (List Char)) :
    ∃ exprs nodes new, sheet.Ends segments exprs nodes new (sheet.enterSegments segments) := by
  induction segments generalizing sheet with
  | nil => exact ⟨[], [], [], .finished rooted.entered_nil⟩
  | cons segment rest inductionHypothesis =>
      rcases rooted.enterSegment_cases segment with
        ⟨expr, nodes, new, middle, step, entered⟩ | ⟨error, after, step, refuses, spared, registered⟩
      · obtain ⟨exprs, others, further, ends⟩ := inductionHypothesis entered.rooted
        rw [enterSegments_of_ok step]
        exact ⟨_, _, _, entered.ends rooted ends⟩
      · rw [enterSegments_of_error step]
        exact ⟨[], [], [], .stopped rfl rooted.entered_nil refuses spared registered⟩

theorem Grows.gathered (grows : sheet.Grows nodes new middle) (rooted : sheet.Rooted)
    (grew : Bool) :
    let after := if grew then middle.refreshRoot else middle
    after.listed = sheet.listed ++ nodes ∧
      nodes.map (fun node => (after.forest.tree node).expr?) = new.map some ∧
      (∀ node ∈ nodes, sheet.forest.isLive node = false) ∧
      (∀ node ∈ sheet.listed, after.forest.tree node = sheet.forest.tree node) ∧
      after.table = middle.table := by
  intro after
  have same : after.listed = middle.listed ∧ after.table = middle.table ∧
      ∀ node ∈ middle.listed, after.forest.tree node = middle.forest.tree node := by
    unfold after
    cases grew with
    | false => exact ⟨rfl, rfl, fun _ _ => rfl⟩
    | true => exact ⟨rfl, grows.rooted.refreshRoot.2.2, fun node => grows.rooted.tree_refreshRoot⟩
  obtain ⟨listed, table, trees⟩ := same
  refine ⟨listed.trans grows.listed, ?_, ?_, ?_, table⟩
  · rw [← grows.found]
    apply List.map_congr_left
    intro node member
    rw [trees node (grows.listed ▸ List.mem_append_right _ member)]
  · intro node member
    apply Bool.eq_false_iff.mpr
    intro live
    obtain ⟨content, located⟩ := Forest.isLive_iff.mp live
    cases (grows.fresh node member).symm.trans located
  · intro node member
    rw [trees node (grows.listed ▸ List.mem_append_left _ member)]
    exact grows.tree_eq rooted member

/-- The pieces of a text are entered in order up to the first that is refused.  The list keeps its
trees, and new ones follow for the expressions that agree with none before them. -/
theorem Attainable.enter_segments (attainable : sheet.Attainable) (text : String) :
    let segments := sheet.dialect.segments text
    let answer := (sheet.enter text).1
    let after := (sheet.enter text).2
    ([sheet.dialect.separator].intercalate segments = text.toList ∧
      ∀ segment ∈ segments, sheet.dialect.separator ∉ segment) ∧
    ∃ done rest exprs nodes new table, segments = done ++ rest ∧
      List.Forall₂ sheet.dialect.Means done exprs ∧
      sheet.table.replay exprs = .ok table ∧
      (∀ earlier name source later,
        exprs = earlier ++ .binary .assign (.variable name) source :: later →
          ∃ before next value, sheet.table.replay earlier = .ok before ∧
            source.tryValue (before.declareAll (name :: source.names)) = .ok value ∧
            sheet.table.replay (earlier ++ [.binary .assign (.variable name) source]) = .ok next ∧
            next.value? name = value) ∧
      exprs.foldl Expr.insertNew sheet.exprs = sheet.exprs ++ new ∧
      after.listed = sheet.listed ++ nodes ∧
      nodes.map (fun node => (after.forest.tree node).expr?) = new.map some ∧
      (∀ node ∈ nodes, sheet.forest.isLive node = false) ∧
      (∀ node ∈ sheet.listed, after.forest.tree node = sheet.forest.tree node) ∧
      (∀ name, after.table.value? name = table.value? name) ∧
      (rest = [] ∧ answer = .ok !nodes.isEmpty ∧ after.table = table ∨
        ∃ segment others error, rest = segment :: others ∧ answer = .error error ∧
          sheet.dialect.Refuses table segment error ∧
          after.table = sheet.dialect.declared table segment) := by
  intro segments answer after
  refine ⟨sheet.dialect.segments_spec text, ?_⟩
  have rooted := attainable.intact.rooted
  obtain ⟨exprs, nodes, new, ends⟩ := rooted.enterSegments_ends segments
  generalize reached : sheet.enterSegments segments = outcome at ends
  have entering : sheet.enter text = (outcome.1.map fun _ => outcome.2.1,
      if outcome.2.1 then outcome.2.2.refreshRoot else outcome.2.2) := by
    rw [enter, reached]
  unfold answer after
  rw [entering]
  -- All segments have been entered, or those before one that is refused.
  cases ends with
  | @finished last entered =>
      obtain ⟨listed, found, fresh, trees, table⟩ :=
        entered.toGrows.gathered rooted (!nodes.isEmpty)
      refine ⟨segments, [], exprs, nodes, new, last.table, (List.append_nil _).symm,
        entered.means, entered.replayed, ?_, entered.inserted, listed, found, fresh, trees,
        fun name => by rw [table], .inl ⟨rfl, rfl, table⟩⟩
      exact fun earlier name source later => Variables.replay_assignment entered.replayed
  | @stopped done rest segment error middle last split entered refuses spared registered =>
      have grows := entered.toGrows.trans spared
      rw [List.append_nil, List.append_nil] at grows
      obtain ⟨listed, found, fresh, trees, table⟩ := grows.gathered rooted (!nodes.isEmpty)
      rw [entered.dialect] at refuses registered
      refine ⟨done, segment :: rest, exprs, nodes, new, middle.table, split,
        entered.means, entered.replayed, ?_, entered.inserted, listed, found, fresh, trees,
        fun name => ?_, .inr ⟨segment, rest, error, rfl, rfl, refuses, table.trans registered⟩⟩
      · exact fun earlier name source later => Variables.replay_assignment entered.replayed
      · rw [table, registered]
        exact Variables.value?_declareAll _ _ _

/-- A duplicate that assigns, a value that an earlier piece has changed, and a division by
zero that ends it all. -/
theorem Attainable.enter_segments_until_division :
    let sheet := (Sheet.new .standard).acts [.own (.enter (some "a = 2; b"))]
    let text := "b; c = a + 1; a = 5; a = 2; d = a * c; e = 1 / (a - 2); f"
    let after := (sheet.enter text).2
    sheet.Attainable ∧ (sheet.enter text).1 = .error (.fault .divisionByZero) ∧
      after.renderings = ["a = 2", "b", "c = a + 1", "a = 5", "d = a * c"] ∧
      after.table.entries = [("a", some (.int 2)), ("b", none), ("c", some (.int 3)),
        ("d", some (.int 6)), ("e", none)] ∧
      ∃ nodes, after.listed = sheet.listed ++ nodes ∧
        ∀ node ∈ nodes, sheet.forest.isLive node = false := by
  intro sheet text after
  have attainable : sheet.Attainable := ⟨_, _, rfl⟩
  obtain ⟨-, -, -, -, nodes, -, -, -, -, -, -, -, listed, -, fresh, -⟩ :=
    Attainable.enter_segments attainable text
  have run : ((sheet.enter text).1, after.renderings, after.table.entries) =
      (.error (.fault .divisionByZero), ["a = 2", "b", "c = a + 1", "a = 5", "d = a * c"],
        [("a", some (.int 2)), ("b", none), ("c", some (.int 3)), ("d", some (.int 6)),
          ("e", none)]) := by
    unfold after sheet
    cbv
  rw [Prod.mk.injEq, Prod.mk.injEq] at run
  exact ⟨attainable, run.1, run.2.1, run.2.2, nodes, listed, fresh⟩

end Sheet

end Worksheet
