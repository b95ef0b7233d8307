import Worksheet.Proofs.Sheet.Saving

/-!
# Loading what was saved

Loading a saved sheet replays the listed expressions over the implied values.  Nothing is
lost if no listed expression agrees with one before it and the replay ends with the
values of the sheet, and something is lost if not.
-/

namespace Worksheet

/-! ### Replaying assignments of numbers -/

namespace Variables

theorem entered_spelled (table : Variables) (name : String) (value : Number) :
    table.entered (.binary .assign (.variable name) value.spelled) =
      .ok (table.set name value) := by
  have names : (Expr.binary .assign (.variable name) value.spelled).names = [name] := by
    rw [Expr.names, value.names_spelled]
    rfl
  have stored : (table.declareAll [name]).put name (some value) = table.set name value := by
    apply eq_of_find?
    intro other
    rw [find?_put, set, find?_put, find?_declareAll]
    split
    next => rfl
    next different => rw [if_neg (by simpa using different)]
  have done : table.entered (.binary .assign (.variable name) value.spelled) =
      (value.spelled.tryValue (table.declareAll
        (Expr.binary .assign (.variable name) value.spelled).names)).map
        fun number => (table.declareAll
          (Expr.binary .assign (.variable name) value.spelled).names).put name number := rfl
  rw [done, value.tryValue_spelled, names]
  exact congrArg Except.ok stored

theorem replay_append (table : Variables) (first second : List Expr) :
    table.replay (first ++ second) = table.replay first >>= fun table => table.replay second :=
  List.foldlM_append

theorem replay_spelled (table : Variables) (values : List (String × Number)) :
    table.replay (values.map fun (name, value) =>
      .binary .assign (.variable name) value.spelled) =
      .ok (values.foldl (fun table (name, value) => table.set name value) table) := by
  induction values generalizing table with
  | nil => rfl
  | cons entry rest inductionHypothesis =>
      rw [replay, List.map_cons, List.foldlM_cons, entered_spelled]
      exact inductionHypothesis (table.set entry.1 entry.2)

end Variables

namespace Sheet

variable {sheet : Sheet}

def impliedTable (sheet : Sheet) : Variables :=
  sheet.impliedValues.foldl (fun table (name, value) => table.set name value) .empty

theorem replay_savedExprs (sheet : Sheet) :
    Variables.empty.replay sheet.savedExprs = sheet.impliedTable.replay sheet.exprs := by
  rw [savedExprs, Variables.replay_append, Variables.replay_spelled]
  rfl

/-! ### Implied assignments are new -/

theorem eq_of_assignment_agrees {name : String} {source expr : Expr}
    (agrees : (Expr.binary .assign (.variable name) source).agrees expr = true) :
    ∃ source', expr = .binary .assign (.variable name) source' := by
  cases expr with
  | binary operator left right =>
      simp only [Expr.agrees, Bool.and_eq_true, beq_iff_eq] at agrees
      obtain ⟨⟨rfl, target⟩, -⟩ := agrees
      cases left with
      | «variable» other =>
          simp only [Expr.agrees, beq_iff_eq] at target
          exact ⟨right, by rw [target]⟩
      | _ => simp [Expr.agrees] at target
  | _ => simp [Expr.agrees] at agrees

theorem Rooted.assignmentFor?_isSome (rooted : sheet.Rooted) {name : String} {source : Expr}
    (member : .binary .assign (.variable name) source ∈ sheet.exprs) :
    (sheet.assignmentFor? name).isSome = true := by
  have linked := rooted.linked
  obtain ⟨node, listed, found⟩ := List.mem_filterMap.mp member
  have target : sheet.forest.target? node = some name := by
    obtain ⟨content, located, -⟩ := linked.live_of_expr? found
    cases content with
    | binary operator left right =>
        obtain ⟨low, high, first, second, rfl, rfl, leftFound, -, same⟩ :=
          linked.operands_of_expr? located found
        cases same
        rw [Forest.target?, located]
        dsimp only
        rw [Forest.name?, linked.node?_of_expr?_variable leftFound]
    | _ =>
        rw [linked.tree_eq, located] at found
        cases found
  rw [assignmentFor?, List.find?_isSome]
  exact ⟨node, listed, by simp [target]⟩

theorem Rooted.pairwise_savedExprs (rooted : sheet.Rooted) :
    (sheet.savedExprs.Pairwise fun before expr => before.agrees expr = false) ↔
      sheet.exprs.Pairwise fun before expr => before.agrees expr = false := by
  rw [savedExprs, List.pairwise_append]
  have implied : (sheet.impliedValues.map fun (name, value) =>
      Expr.binary .assign (.variable name) value.spelled).Pairwise
        fun before expr => before.agrees expr = false := by
    apply List.pairwise_map.mpr
    apply (sheet.table.pairwise_valued.filter _).imp
    intro left right before
    apply Bool.eq_false_iff.mpr
    intro agrees
    obtain ⟨source, same⟩ := eq_of_assignment_agrees agrees
    simp only [Expr.binary.injEq, Expr.variable.injEq, true_and] at same
    exact Std.ne_of_lt before same.1.symm
  have apart : ∀ before ∈ sheet.impliedValues.map fun (name, value) =>
      Expr.binary .assign (.variable name) value.spelled,
      ∀ expr ∈ sheet.exprs, before.agrees expr = false := by
    intro before member expr listed
    obtain ⟨⟨name, value⟩, inside, rfl⟩ := List.mem_map.mp member
    apply Bool.eq_false_iff.mpr
    intro agrees
    obtain ⟨source, rfl⟩ := eq_of_assignment_agrees agrees
    have missing := (List.mem_filter.mp inside).2
    have assigned := rooted.assignmentFor?_isSome listed
    rw [Option.isNone_iff_eq_none.mp missing] at assigned
    cases assigned
  exact ⟨fun whole => whole.2.1, fun listed => ⟨implied, listed, apart⟩⟩

/-! ### Loading -/

theorem ofName?_name (kind : Kind) : Kind.ofName? kind.name = some kind := by
  cases kind <;> rfl

theorem typeName?_typeLine (kind : Kind) :
    typeName? (typeWord ++ " " ++ kind.name).toList = some kind.name := by
  cases kind <;> rfl

theorem Holds.applyType {dialect : Dialect} (holds : sheet.Holds dialect [] .empty)
    (kind : Kind) :
    ∃ after, sheet.applyType kind.name false = (.ok (), after) ∧
      after.Holds { dialect with kind } [] .empty := by
  rw [Sheet.applyType, ofName?_name]
  dsimp only
  rw [Bool.false_and, if_neg Bool.false_ne_true, setKind]
  split
  next same =>
    have dialects : ({ dialect with kind } : Dialect) = dialect := by
      rw [same, Sheet.kind, holds.dialect]
    rw [dialects]
    exact ⟨sheet, rfl, holds⟩
  next =>
    have none : sheet.text = "" := by
      have lines : sheet.lines = [] := by
        rw [Sheet.lines, impliedAssignments, holds.table, renderings, holds.listed_eq_nil]
        rfl
      rw [text, lines]
      rfl
    rw [none]
    have cleared := holds.rooted.holds_clear.withDialect { sheet.dialect with kind }
    rw [holds.dialect] at cleared
    refine ⟨_, rfl, ?_⟩
    rw [holds.dialect]
    exact cleared

variable {folder : Folder} {name : String} {dialect : Dialect}

theorem Rooted.load_eq (rooted : sheet.Rooted) (sound : sheet.table.Sound sheet.kind)
    (read : folder.read name = .ok sheet.fileText)
    (uncut : ∀ line ∈ sheet.lines, dialect.separator ∉ line.toList) :
    (∀ table, sheet.impliedTable.replay sheet.exprs = .ok table →
      ∃ changed loaded, (new dialect).load folder name false = (.ok changed, loaded) ∧
        loaded.Holds { dialect with kind := sheet.kind }
          (sheet.savedExprs.foldl Expr.insertNew []) table) ∧
    ∀ fault, sheet.impliedTable.replay sheet.exprs = .error fault →
      ∃ loaded, (new dialect).load folder name false = (.error (.fault fault), loaded) := by
  obtain ⟨typed, applied, holds⟩ :=
    (holds_new dialect).rooted.holds_clear.applyType sheet.kind
  have reads : List.Forall₂ ({ dialect with kind := sheet.kind } : Dialect).Reads
      (sheet.lines.map String.toList) sheet.savedExprs := rooted.reads_lines sound rfl uncut
  have content : (new dialect).clear.enterFile false (Text.filledLines sheet.fileText.toList) =
      typed.enterLines (sheet.lines.map String.toList) := by
    rw [rooted.filledLines_fileText sound, enterFile]
    rw [typeName?_typeLine]
    dsimp only
    rw [applied]
  rw [← replay_savedExprs]
  constructor
  · intro table replayed
    obtain ⟨entered, done, kept⟩ := holds.enterLines_of_replay reads replayed
    have loaded : ({ entered with file := some name } : Sheet).touched.Holds
        { dialect with kind := sheet.kind } (sheet.savedExprs.foldl Expr.insertNew []) table :=
      kept.of_same rfl rfl rfl rfl
    refine ⟨!(entered.sameContent (new dialect).clear), _, ?_, loaded⟩
    rw [load, read]
    dsimp only
    rw [if_neg Bool.false_ne_true, content, done]
  · intro fault refused
    obtain ⟨entered, done⟩ := holds.enterLines_of_refused reads refused
    refine ⟨entered, ?_⟩
    rw [load, read]
    dsimp only
    rw [if_neg Bool.false_ne_true, content, done]

/-- A saved sheet is loaded with the same expressions and values if, and only if, no listed
expression agrees with one before it and replaying them over the implied values ends with the
values. -/
theorem Reachable.load_save_iff (reachable : sheet.Reachable) {folder' : Folder} {saved : Sheet}
    (done : sheet.save folder name = .ok (saved, folder')) (dialect : Dialect)
    (uncut : ∀ line ∈ sheet.lines, dialect.separator ∉ line.toList) :
    (sheet.lines.map fun line => Expr.read sheet.kind line.toList) =
      sheet.savedExprs.map .ok ∧
    ((∃ changed loaded, (new dialect).load folder' name false = (.ok changed, loaded) ∧
        loaded.kind = sheet.kind ∧
        loaded.listed.map (fun node => (loaded.forest.tree node).expr?) =
          sheet.savedExprs.map some ∧
        ∀ other value, sheet.table.value? other = some value →
          loaded.table.value? other = some value) ↔
      (sheet.exprs.Pairwise fun before expr => before.agrees expr = false) ∧
        ∃ table, sheet.impliedTable.replay sheet.exprs = .ok table ∧
          ∀ other value, sheet.table.value? other = some value →
            table.value? other = some value) := by
  obtain ⟨rooted, sound⟩ := reachable.rooted_and_sound
  obtain ⟨loads, fails⟩ := rooted.load_eq sound (read_of_save done) uncut
  have lost := foldl_insertNew_eq_iff [] sheet.savedExprs
  refine ⟨rooted.map_read_lines sound, ?_, ?_⟩
  · rintro ⟨changed, loaded, finished, -, trees, values⟩
    cases replayed : sheet.impliedTable.replay sheet.exprs with
    | error fault =>
        obtain ⟨failed, refused⟩ := fails fault replayed
        cases finished.symm.trans refused
    | ok table =>
        obtain ⟨_, _, finished', holds⟩ := loads table replayed
        cases finished.symm.trans finished'
        rw [holds.rooted.map_expr?, holds.exprs] at trees
        have whole := List.map_injective_iff.mpr (Option.some_injective Expr) trees
        have ordered := (lost.mp whole).2
        refine ⟨rooted.pairwise_savedExprs.mp ordered, table, rfl, ?_⟩
        rw [← holds.table]
        exact values
  · rintro ⟨ordered, table, replayed, values⟩
    obtain ⟨changed, loaded, finished, holds⟩ := loads table replayed
    have whole := lost.mpr ⟨by simp, rooted.pairwise_savedExprs.mpr ordered⟩
    refine ⟨changed, loaded, finished, ?_, ?_, ?_⟩
    · rw [kind, holds.dialect]
    · rw [holds.rooted.map_expr?, holds.exprs, whole]
      rfl
    · rw [holds.table]
      exact values

/-- The value of a removed assignment is saved before the expressions that need it. -/
theorem Reachable.load_save_implied :
    let sheet := (new .standard).run
      [.enter (some "a = 2; b = a + 1; a - b"), .remove ⟨3, 0⟩]
    sheet.lines = ["a = 2", "b = a + 1", "a - b"] ∧
      ∃ saved folder changed loaded, sheet.save .empty "f" = .ok (saved, folder) ∧
        (new ⟨.double, ';'⟩).load folder "f" false = (.ok changed, loaded) ∧
        loaded.table.value? "b" = some (.int 3) := by
  intro sheet
  have lines : sheet.lines = ["a = 2", "b = a + 1", "a - b"] := by
    unfold sheet
    cbv
  have exprs : sheet.exprs =
      [.binary .assign (.variable "b") (.binary .add (.variable "a") (.number (.int 1))),
        .binary .subtract (.variable "a") (.variable "b")] := by
    unfold sheet
    cbv
  have replayed : sheet.impliedTable.replay sheet.exprs = .ok sheet.table := by
    unfold sheet
    cbv
  have value : sheet.table.value? "b" = some (.int 3) := by
    unfold sheet
    cbv
  have uncut : ∀ line ∈ sheet.lines, ';' ∉ line.toList := by
    rw [lines]
    decide
  have ordered : sheet.exprs.Pairwise fun before expr => before.agrees expr = false := by
    rw [exprs]
    decide
  have done : sheet.save .empty "f" = .ok (_, _) := rfl
  have whole := (Reachable.load_save_iff ⟨_, _, rfl⟩ done ⟨.double, ';'⟩ uncut).2
  obtain ⟨changed, loaded, finished, -, -, values⟩ :=
    whole.mpr ⟨ordered, _, replayed, fun _ _ found => found⟩
  exact ⟨lines, _, _, changed, loaded, done, finished, values "b" _ value⟩

/-- An assignment that comes later, but is listed alone, takes a value away. -/
theorem value_lost_by_load :
    let sheet := (new .standard).run
      [.enter (some "a = 1; b = a + 1"), .enter (some "a = 5"), .remove ⟨3, 0⟩]
    sheet.Reachable ∧ sheet.fileText = "type int\nb = a + 1\na = 5\n" ∧
      sheet.table.value? "b" = some (.int 2) ∧
      ∃ saved folder loaded, sheet.save .empty "f" = .ok (saved, folder) ∧
        (new .standard).load folder "f" false = (.ok true, loaded) ∧
        loaded.table.value? "b" = none := by
  intro sheet
  have text : sheet.fileText = "type int\nb = a + 1\na = 5\n" := by
    unfold sheet
    cbv
  have value : sheet.table.value? "b" = some (.int 2) := by
    unfold sheet
    cbv
  have done : sheet.save .empty "f" = .ok (_, _) := rfl
  have read : (Folder.empty.put "f" sheet.fileText.toUTF8).read "f" =
      .ok "type int\nb = a + 1\na = 5\n" := (read_of_save done).trans (congrArg Except.ok text)
  refine ⟨⟨_, _, rfl⟩, text, value, _, _, _, done, Prod.ext ?_ rfl, ?_⟩
  · rw [load, read]
    cbv
  · rw [load, read]
    cbv

end Sheet

end Worksheet
