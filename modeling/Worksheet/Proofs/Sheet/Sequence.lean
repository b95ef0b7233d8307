import Worksheet.CommandLine
import Worksheet.Proofs.Forest.Unrooting
import Worksheet.Proofs.Sheet.Segments

/-!
# Texts entered in sequence

Entering two texts with a separator between them is entering the first one and then, if
nothing failed, the second one.  Between the two the root is made to hold the list again;
that neither helps nor hinders the expressions that follow.
-/

namespace Worksheet

theorem Dialect.segments_append (dialect : Dialect) (first second : String) :
    dialect.segments (first ++ dialect.separator.toString ++ second) =
      dialect.segments first ++ dialect.segments second := by
  let isSeparator (c : Char) : Bool := c = dialect.separator
  have isCut : isSeparator dialect.separator = true := decide_eq_true rfl
  have apart := Text.split_append_cut isCut first.toList second.toList
  simpa [segments] using apart

namespace Sheet

variable {sheet : Sheet}

/-- The sheets are equal, up to their versions. -/
def Alike (sheet other : Sheet) : Prop :=
  sheet = { other with version := sheet.version }

theorem Alike.refl (sheet : Sheet) : sheet.Alike sheet := rfl

theorem Alike.trans {middle last : Sheet} (first : sheet.Alike middle)
    (second : middle.Alike last) : sheet.Alike last := by
  rw [Alike, first, second]

theorem Alike.report {other : Sheet} (alike : sheet.Alike other) :
    sheet.report.1 = other.report.1 := by
  rw [alike]
  rfl

/-- The sheet without what `refreshRoot` renews: the links of the root, and the version. -/
def core (sheet : Sheet) : Sheet :=
  { sheet with forest := sheet.forest.unrooted sheet.root, version := 0 }

/-! ### Entering without a root -/

theorem Rooted.merge_core (rooted : sheet.Rooted) (expr : Expr) :
    sheet.core.merge expr = ((sheet.merge expr).1, (sheet.merge expr).2.core) := by
  obtain ⟨members, group⟩ := rooted.root
  have outcome := rooted.linked.grafts expr
  have grafting : sheet.core.forest.graft expr =
      ((sheet.forest.graft expr).1, (sheet.forest.graft expr).2.unrooted sheet.root) :=
    rooted.linked.graft_unrooted group expr
  rw [merge, merge, grafting]
  rcases done : sheet.forest.graft expr with ⟨fault | node, forest⟩
  · rfl
  · rw [done] at outcome
    have alone := outcome.grafted.alone fun _ _ found => ⟨found, rfl⟩
    have known : (sheet.core.listed.any fun listed =>
        (forest.unrooted sheet.root).agrees listed node) =
          sheet.listed.any fun listed => forest.agrees listed node := by
      simp only [alone.single.agrees_unrooted]
      rfl
    dsimp only
    rw [known, alone.removeTree_unrooted]
    split <;> rfl

theorem Rooted.enterSegment_core (rooted : sheet.Rooted) (segment : List Char) :
    sheet.core.enterSegment segment =
      ((sheet.enterSegment segment).1, (sheet.enterSegment segment).2.core) := by
  cases read : Expr.read sheet.kind segment with
  | error error =>
      have read' : Expr.read sheet.core.kind segment = .error error := read
      rw [enterSegment_of_error read, enterSegment_of_error read']
      rfl
  | ok expr =>
      have means : sheet.dialect.Means segment expr := read
      have means' : sheet.core.dialect.Means segment expr := read
      obtain ⟨declared, -⟩ := rooted.withTable (sheet.table.declareAll expr.names)
      rw [enterSegment_of_means means, enterSegment_of_means means']
      exact declared.merge_core expr

theorem Rooted.enterSegments_core (rooted : sheet.Rooted) (segments : List (List Char)) :
    sheet.core.enterSegments segments =
      ((sheet.enterSegments segments).1, (sheet.enterSegments segments).2.1,
        (sheet.enterSegments segments).2.2.core) := by
  induction segments generalizing sheet with
  | nil => rfl
  | cons segment rest inductionHypothesis =>
      have step := rooted.enterSegment_core segment
      have edits := sheet.edits_enterSegment segment
      rcases entered : sheet.enterSegment segment with ⟨error | grew, middle⟩
      · rw [entered] at step
        rw [enterSegments_of_error entered, enterSegments_of_error step]
      · rw [entered] at step edits
        rw [enterSegments_of_ok entered, enterSegments_of_ok step,
          inductionHypothesis (edits.leads rooted).rooted]

theorem Rooted.core_refreshRoot (rooted : sheet.Rooted) : sheet.refreshRoot.core = sheet.core := by
  obtain ⟨members, group⟩ := rooted.root
  have hanging (node : Handle) (above : ∀ parent ∈ sheet.forest.parent? node, parent = sheet.root) :
      (sheet.forest.unrooted sheet.root).parent? node = none := by
    rw [Forest.parent?_unrooted, Option.filter_eq_none_iff]
    simpa using above
  have cleared : (sheet.forest.detachMembers sheet.root).unrooted sheet.root =
      sheet.forest.unrooted sheet.root := by
    rw [Forest.detachMembers, group]
    apply Forest.unrooted_foldl (fun _ _ _ => Forest.unrooted_detach) group
    intro node member
    apply hanging
    intro parent above
    have up := rooted.linked.parent?_of_child node sheet.root ⟨_, group, member⟩
    exact Option.some.inj (above.symm.trans up)
  obtain ⟨members', group'⟩ := Forest.exists_group_of_unrooted cleared group
  have gathered : sheet.refreshRoot.forest.unrooted sheet.root =
      sheet.forest.unrooted sheet.root := by
    rw [← cleared]
    apply Forest.unrooted_foldl (fun _ _ _ => Forest.unrooted_adopt) group'
    intro node member
    rw [cleared]
    exact hanging node (rooted.outermost_listed node member)
  rw [core, core, ← gathered]
  rfl

/-- The root is the only group. -/
theorem Intact.single (intact : sheet.Intact) {node : Handle} (different : node ≠ sheet.root) :
    sheet.forest.Single node := by
  intro members located
  have below := intact.below_root (Forest.isLive_iff.mpr ⟨_, located⟩)
  have above := intact.rooted.linked.group_parent? node members located
  exact different (intact.rooted.linked.eq_of_below_of_root below above)

/-- A sheet is known from its core, up to the version. -/
theorem Intact.alike_of_core {other : Sheet} (intact : sheet.Intact) (intact' : other.Intact)
    (same : other.core = sheet.core) : other.Alike sheet := by
  have mirrored := intact.mirrored
  have mirrored' := intact'.mirrored
  simp only [core, mk.injEq, and_true] at same
  obtain ⟨dialect, slots, listed, root, filters, file⟩ := same
  rw [root] at slots
  have nodes : other.forest.node? = sheet.forest.node? := by
    funext node
    by_cases top : node = sheet.root
    · rw [top, mirrored, ← root, mirrored', listed]
    · rw [← (intact.single top).node?_unrooted sheet.root, ← slots]
      exact ((intact'.single (root ▸ top)).node?_unrooted sheet.root).symm
  have forest := intact.rooted.linked.eq_of_unrooted intact'.rooted.linked slots nodes
  cases other
  cases sheet
  simp_all [Alike]

/-! ### Two texts -/

theorem enterSegments_append (sheet : Sheet) (first second : List (List Char)) :
    sheet.enterSegments (first ++ second) =
      match sheet.enterSegments first with
      | (.error error, grew, middle) => (.error error, grew, middle)
      | (.ok (), grew, middle) =>
          ((middle.enterSegments second).1, grew || (middle.enterSegments second).2.1,
            (middle.enterSegments second).2.2) := by
  induction first generalizing sheet with
  | nil => rfl
  | cons segment rest inductionHypothesis =>
      rw [List.cons_append]
      rcases entered : sheet.enterSegment segment with ⟨error | grew, middle⟩
      · rw [enterSegments_of_error entered, enterSegments_of_error entered]
      · rw [enterSegments_of_ok entered, enterSegments_of_ok entered, inductionHypothesis]
        rcases middle.enterSegments rest with ⟨error | ⟨⟩, later, last⟩
        · rfl
        · simp only [Bool.or_assoc]

/-- Whether or not the root is made to hold the list at the end, the core is that after the
segments. -/
theorem Intact.enter_core (intact : sheet.Intact) (text : String) :
    ∃ outcome grew after last,
      sheet.enterSegments (sheet.dialect.segments text) = (outcome, grew, after) ∧
      sheet.enter text = (outcome.map fun _ => grew, last) ∧
      after.Rooted ∧ last.Intact ∧ last.core = after.core ∧ last.dialect = sheet.dialect := by
  have entered := (sheet.edits_enterSegments (sheet.dialect.segments text)).leads intact.rooted
  obtain ⟨exprs, nodes, new, ends⟩ :=
    intact.rooted.enterSegments_ends (sheet.dialect.segments text)
  have last := intact.edits (sheet.edits_enter text)
  rw [enter] at last
  rcases reached : sheet.enterSegments (sheet.dialect.segments text) with ⟨outcome, grew, after⟩
  rw [reached] at entered ends last
  have same : after.dialect = sheet.dialect := by
    cases ends with
    | finished entered => exact entered.dialect
    | stopped _ before _ spared _ => exact spared.dialect.trans before.dialect
  refine ⟨outcome, grew, after, if grew then after.refreshRoot else after, rfl,
    by rw [enter, reached], entered.rooted, last, ?_⟩
  split
  next => exact ⟨entered.rooted.core_refreshRoot, same⟩
  next => exact ⟨rfl, same⟩

def enterBoth (sheet : Sheet) (first second : String) : Except SheetError Bool × Sheet :=
  match sheet.enter first with
  | (.error error, middle) => (.error error, middle)
  | (.ok grew, middle) =>
      ((middle.enter second).1.map (grew || ·), (middle.enter second).2)

theorem Intact.enter_append (intact : sheet.Intact) (first second : String) :
    let joined := sheet.enter (first ++ sheet.dialect.separator.toString ++ second)
    let turned := sheet.enterBoth first second
    joined.1 = turned.1 ∧ joined.2.Alike turned.2 := by
  intro joined turned
  obtain ⟨outcome, grew, middle, refreshed, entered, done, rooted, intact', core, same⟩ :=
    intact.enter_core first
  obtain ⟨_, _, _, last, entered', done', -, joinedIntact, joinedCore, -⟩ :=
    intact.enter_core (first ++ sheet.dialect.separator.toString ++ second)
  rw [sheet.dialect.segments_append, enterSegments_append, entered] at entered'
  unfold joined turned
  rw [done', enterBoth, done]
  cases outcome with
  | error error =>
      cases entered'
      exact ⟨rfl, intact'.alike_of_core joinedIntact (joinedCore.trans core.symm)⟩
  | ok _ =>
      cases entered'
      obtain ⟨outcome, later, after, turned, entered, done, -, turnedIntact, turnedCore, -⟩ :=
        intact'.enter_core second
      -- The root is the same to the second text, refreshed or not.
      have left := rooted.enterSegments_core (sheet.dialect.segments second)
      have right := intact'.rooted.enterSegments_core (sheet.dialect.segments second)
      rw [same] at entered
      rw [core, left, entered, Prod.mk.injEq, Prod.mk.injEq] at right
      obtain ⟨outcomes, growths, cores⟩ := right
      dsimp only [Except.map]
      rw [done, outcomes, growths]
      refine ⟨by cases outcome <;> rfl, ?_⟩
      exact turnedIntact.alike_of_core joinedIntact
        (joinedCore.trans (cores.trans turnedCore.symm))

/-! ### Many texts -/

/-- Entering texts one after the other, up to the first that fails, is entering them all at
once. -/
theorem Intact.enter_intercalate (intact : sheet.Intact) {texts : List String}
    (given : texts ≠ []) :
    let joined := sheet.enter (sheet.dialect.separator.toString.intercalate texts)
    let turned := sheet.enterLines (texts.map String.toList)
    (joined.1.map fun _ => ()) = turned.1 ∧ joined.2.Alike turned.2 := by
  intro joined turned
  unfold joined turned
  induction texts generalizing sheet with
  | nil => exact absurd rfl given
  | cons text rest inductionHypothesis =>
      rw [List.map_cons, enterLines, String.ofList_toList]
      cases rest with
      | nil =>
          rw [String.intercalate_singleton]
          rcases sheet.enter text with ⟨error | grew, middle⟩
          · exact ⟨rfl, .refl middle⟩
          · exact ⟨rfl, .refl middle⟩
      -- The joined text acts as the first text and then the others, joined likewise.
      | cons next others =>
          obtain ⟨answers, alike⟩ := intact.enter_append text
            (sheet.dialect.separator.toString.intercalate (next :: others))
          rw [String.intercalate_cons_cons, answers]
          obtain ⟨outcome, grew, -, middle, -, entering, -, intact', -, same⟩ :=
            intact.enter_core text
          rw [enterBoth, entering] at alike ⊢
          cases outcome with
          | error error => exact ⟨rfl, alike⟩
          | ok _ =>
              obtain ⟨later, alike'⟩ := inductionHypothesis intact' (List.cons_ne_nil next others)
              rw [same] at later alike'
              refine ⟨?_, alike.trans alike'⟩
              dsimp only [Except.map]
              rw [← later]
              rcases (middle.enter _).1 with error | grew <;> rfl

end Sheet

namespace CommandLine

def answer : Except SheetError Unit × Sheet → Answer
  | (.ok (), sheet) => .finished sheet.report.1
  | (.error error, sheet) => .failed sheet.report.1 error

/-- Enters the texts into a new sheet one after the other, up to the first that fails, and
reports on the sheet. -/
def enterInTurn (kind : Kind) (texts : List String) : Answer :=
  answer ((Sheet.new { Dialect.standard with kind }).enterLines (texts.map String.toList))

theorem answer_congr {joined turned : Except SheetError Unit × Sheet}
    (outcomes : joined.1 = turned.1) (alike : joined.2.Alike turned.2) :
    answer joined = answer turned := by
  have reports := alike.report
  obtain ⟨outcome, joined⟩ := joined
  obtain ⟨outcome', turned⟩ := turned
  cases outcomes
  rcases outcome with error | ⟨⟩
  · exact congrArg (Answer.failed · error) reports
  · exact congrArg Answer.finished reports

theorem enter_eq_enterInTurn (kind : Kind) {texts : List String} (given : texts ≠ []) :
    enter kind texts = enterInTurn kind texts := by
  let sheet := Sheet.new { Dialect.standard with kind }
  have intact : sheet.Intact := Sheet.intact_new _
  obtain ⟨answers, alike⟩ := intact.enter_intercalate given
  let joined := sheet.enter (sheet.dialect.separator.toString.intercalate texts)
  have entering : enter kind texts = answer (joined.1.map fun _ => (), joined.2) := by
    unfold enter joined sheet
    dsimp only
    split
    next done =>
      rw [done]
      rfl
    next failed =>
      rw [failed]
      rfl
  rw [entering]
  exact answer_congr answers alike

theorem texts_ne_nil_of_request {choices : Choices} {kind : Kind} {texts : List String}
    (made : choices.request = .ok (.enter kind texts)) : texts ≠ [] := by
  rw [Choices.request] at made
  split at made
  next => cases made
  next given =>
    cases made
    simpa using given

theorem texts_ne_nil_of_letters? {argument : String} {letters : List Char} {kind : Kind}
    {texts : List String}
    (made : letters? argument letters = .ok (some (.enter kind texts))) : texts ≠ [] := by
  fun_induction letters? argument letters with
  | case2 letters inductionHypothesis => exact inductionHypothesis made
  | _ => cases made

theorem texts_ne_nil_of_parse {choices : Choices} {arguments : List String} {kind : Kind}
    {texts : List String} (parsed : parse choices arguments = .ok (.enter kind texts)) :
    texts ≠ [] := by
  fun_induction parse choices arguments with
  | case1 | case3 => exact texts_ne_nil_of_request parsed
  | case2 _ _ _ _ inductionHypothesis => exact inductionHypothesis parsed
  | case6 _ _ _ _ _ _ inductionHypothesis => exact inductionHypothesis parsed
  | case14 _ _ _ _ _ _ _ _ _ _ _ _ _ _ _ inductionHypothesis => exact inductionHypothesis parsed
  | case9 _ _ _ _ _ _ _ _ _ inductionHypothesis =>
      obtain ⟨next, -, parsed⟩ := bind_eq_ok_iff.mp parsed
      exact inductionHypothesis next parsed
  | case10 _ _ _ _ _ _ _ _ _ _ _ inductionHypothesis =>
      obtain ⟨next, -, parsed⟩ := bind_eq_ok_iff.mp parsed
      exact inductionHypothesis next parsed
  | case13 _ _ _ _ _ _ _ _ _ _ _ _ _ _ request made =>
      cases parsed
      exact texts_ne_nil_of_letters? made
  | _ => cases parsed

end CommandLine

/-- Entering two texts with the separator between them is entering one after the other, up to the
version.  Hence the command line reports on the sheet that its texts lead to one at a time. -/
theorem Sheet.enter_joined :
    (∀ sheet : Sheet, sheet.Attainable → ∀ first second,
      let joined := sheet.enter (first ++ sheet.dialect.separator.toString ++ second)
      let turned := sheet.enterBoth first second
      joined.1 = turned.1 ∧ joined.2.Alike turned.2) ∧
    (∀ kind texts, texts ≠ [] →
      CommandLine.enter kind texts = CommandLine.enterInTurn kind texts) ∧
    ∀ arguments kind texts, CommandLine.parse .none arguments = .ok (.enter kind texts) →
      texts ≠ [] ∧ CommandLine.run arguments = CommandLine.enterInTurn kind texts := by
  refine ⟨?_, ?_, ?_⟩
  · exact fun sheet attainable first second => attainable.intact.enter_append first second
  · exact fun kind texts given => CommandLine.enter_eq_enterInTurn kind given
  · intro arguments kind texts parsed
    have given := CommandLine.texts_ne_nil_of_parse parsed
    rw [CommandLine.run, parsed]
    exact ⟨given, CommandLine.enter_eq_enterInTurn kind given⟩

/-- The second text fails after a duplicate and a new expression, and the sheets differ in
their versions. -/
theorem Sheet.enter_joined_until_division :
    let sheet := (Sheet.new .standard).acts [.own (.enter (some "a = 2; b"))]
    let first := "c = a + 1; b"
    let second := "d = c * 2; c = a + 1; e = 1 / (a - 2); f"
    let joined := sheet.enter (first ++ sheet.dialect.separator.toString ++ second)
    let turned := sheet.enterBoth first second
    let run := CommandLine.run ["a = 6", "-v", "a / 4; b", "a / 0 = 1", "c"]
    sheet.Attainable ∧ joined.1 = .error (.fault .divisionByZero) ∧
      joined.2.renderings = ["a = 2", "b", "c = a + 1", "d = c * 2"] ∧
      joined.2.version ≠ turned.2.version ∧ joined.1 = turned.1 ∧ joined.2.Alike turned.2 ∧
      run = CommandLine.enterInTurn .int ["a = 6", "a / 4; b", "a / 0 = 1", "c"] ∧
      run.code = 1 := by
  intro sheet first second joined turned run
  have attainable : sheet.Attainable := ⟨_, _, rfl⟩
  obtain ⟨two, -, many⟩ := Sheet.enter_joined
  have ⟨answers, alike⟩ := two sheet attainable first second
  have parsed : CommandLine.parse .none ["a = 6", "-v", "a / 4; b", "a / 0 = 1", "c"] =
      .ok (.enter .int ["a = 6", "a / 4; b", "a / 0 = 1", "c"]) := rfl
  have ⟨_, runs⟩ := many _ _ _ parsed
  have ended : (joined.1, joined.2.renderings, joined.2.version, turned.2.version) =
      (.error (.fault .divisionByZero), ["a = 2", "b", "c = a + 1", "d = c * 2"], 2, 3) := by
    unfold joined turned sheet first second
    cbv
  rw [Prod.mk.injEq, Prod.mk.injEq, Prod.mk.injEq] at ended
  obtain ⟨failed, listed, version, version'⟩ := ended
  refine ⟨attainable, failed, listed, ?_, answers, alike, runs, ?_⟩
  · rw [version, version']
    decide
  · unfold run
    rw [runs]
    cbv

end Worksheet
