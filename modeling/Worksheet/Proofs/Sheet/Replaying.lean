import Worksheet.Proofs.Sheet.Operation

/-!
# Lines that are entered one after the other

Entering lines is replaying their expressions: the variables are those after the
replay, and the list has every expression that was new when it came.
-/

namespace Worksheet

/-- The segment is no more than one, and it is read as the expression. -/
structure Dialect.Reads (dialect : Dialect) (segment : List Char) (expr : Expr) : Prop where
  uncut : dialect.separator ∉ segment
  read : Expr.read dialect.kind segment = .ok expr
  namesRead : Expr.namesRead dialect.kind segment = expr.names

namespace Sheet

variable {sheet : Sheet} {dialect : Dialect} {known : List Expr} {table : Variables}
variable {line : List Char} {expr : Expr}

theorem segments_of_uncut (uncut : dialect.separator ∉ line) :
    dialect.segments (String.ofList line) = [line] := by
  rw [Dialect.segments, String.toList_ofList]
  apply Text.split_of_uncut
  intro c member
  apply decide_eq_false
  rintro rfl
  exact uncut member

theorem Holds.enter_eq (holds : sheet.Holds dialect known table) (reads : dialect.Reads line expr)
    {outcome : Except SheetError Bool} {merged : Sheet}
    (done : (sheet.withTable (table.declareAll expr.names)).merge expr = (outcome, merged)) :
    ∃ after, sheet.enter (String.ofList line) = (outcome, after) ∧
      (after = merged ∨ after = merged.refreshRoot) := by
  obtain ⟨-, rfl, -, rfl⟩ := holds
  have read : Expr.read (sheet.withTable (sheet.table.declareAll expr.names)).kind line =
      .ok expr := reads.read
  have segment : sheet.enterSegment line = (outcome, merged) := by
    rw [enterSegment, Dialect.declared, reads.namesRead, read]
    exact done
  rw [enter, segments_of_uncut reads.uncut, enterSegments, segment]
  cases outcome with
  | error error => exact ⟨merged, rfl, .inl rfl⟩
  | ok grew =>
      cases grew with
      | false => exact ⟨merged, rfl, .inl rfl⟩
      | true => exact ⟨merged.refreshRoot, rfl, .inr rfl⟩

theorem Holds.declared (holds : sheet.Holds dialect known table)
    (reads : dialect.Reads line expr) :
    (sheet.withTable (table.declareAll expr.names)).Holds dialect known
        (table.declareAll expr.names) ∧
      expr.Readable (sheet.withTable (table.declareAll expr.names)).kind ∧
      (sheet.withTable (table.declareAll expr.names)).table.entered expr =
        table.entered expr := by
  have declared := holds.withTable (table.declareAll expr.names)
  refine ⟨declared, ?_, ?_⟩
  · rw [kind, declared.dialect]
    exact Expr.readable_of_read reads.read
  · rw [declared.table]
    exact table.entered_declareAll expr

theorem Holds.enter_of_entered (holds : sheet.Holds dialect known table)
    (reads : dialect.Reads line expr) {table' : Variables}
    (entered : table.entered expr = .ok table') :
    ∃ grew after, sheet.enter (String.ofList line) = (.ok grew, after) ∧
      after.Holds dialect (Expr.insertNew known expr) table' := by
  obtain ⟨declared, readable, same⟩ := holds.declared reads
  obtain ⟨nodes, new, merged, done, grows, inserted, table⟩ :=
    declared.rooted.merge_of_entered readable (same.trans entered)
  have kept := grows.holds declared.rooted
  rw [← inserted, declared.dialect, declared.exprs, table] at kept
  obtain ⟨after, finished, rfl | rfl⟩ := holds.enter_eq reads done
  · exact ⟨!nodes.isEmpty, _, finished, kept⟩
  · exact ⟨!nodes.isEmpty, _, finished, kept.refreshRoot⟩

theorem Holds.enter_of_refused (holds : sheet.Holds dialect known table)
    (reads : dialect.Reads line expr) {fault : Fault}
    (refused : table.entered expr = .error fault) :
    ∃ after, sheet.enter (String.ofList line) = (.error (.fault fault), after) := by
  obtain ⟨declared, readable, same⟩ := holds.declared reads
  obtain ⟨merged, done, -⟩ :=
    declared.rooted.merge_of_refused readable (same.trans refused)
  obtain ⟨after, finished, -⟩ := holds.enter_eq reads done
  exact ⟨after, finished⟩

theorem Holds.enterLines_of_replay {lines : List (List Char)} {exprs : List Expr}
    (reads : List.Forall₂ dialect.Reads lines exprs) {sheet : Sheet} {known : List Expr}
    {table table' : Variables} (holds : sheet.Holds dialect known table)
    (replayed : table.replay exprs = .ok table') :
    ∃ after, sheet.enterLines lines = (.ok (), after) ∧
      after.Holds dialect (exprs.foldl Expr.insertNew known) table' := by
  induction reads generalizing sheet known table with
  | nil =>
      cases replayed
      exact ⟨sheet, rfl, holds⟩
  | cons here later inductionHypothesis =>
      obtain ⟨middle, entered, replayed⟩ := bind_eq_ok_iff.mp replayed
      obtain ⟨grew, next, done, holds⟩ := holds.enter_of_entered here entered
      obtain ⟨after, finished, holds⟩ := inductionHypothesis holds replayed
      refine ⟨after, ?_, holds⟩
      rw [enterLines, done]
      exact finished

theorem Holds.enterLines_of_refused {lines : List (List Char)} {exprs : List Expr}
    (reads : List.Forall₂ dialect.Reads lines exprs) {sheet : Sheet} {known : List Expr}
    {table : Variables} (holds : sheet.Holds dialect known table) {fault : Fault}
    (refused : table.replay exprs = .error fault) :
    ∃ after, sheet.enterLines lines = (.error (.fault fault), after) := by
  induction reads generalizing sheet known table with
  | nil => cases refused
  | @cons line expr lines exprs here later inductionHypothesis =>
      rw [enterLines]
      cases entered : table.entered expr with
      | error other =>
          have same : table.replay (expr :: exprs) = .error other := by
            rw [Variables.replay, List.foldlM_cons, entered]
            rfl
          cases refused.symm.trans same
          obtain ⟨after, done⟩ := holds.enter_of_refused here entered
          exact ⟨after, by rw [done]⟩
      | ok middle =>
          have same : table.replay (expr :: exprs) = middle.replay exprs := by
            rw [Variables.replay, List.foldlM_cons, entered]
            rfl
          obtain ⟨grew, next, done, holds⟩ := holds.enter_of_entered here entered
          rw [done]
          exact inductionHypothesis holds (same.symm.trans refused)

/-! ### Expressions that are lost -/

theorem foldl_insertNew_eq_append (known exprs : List Expr) :
    ∃ new, exprs.foldl Expr.insertNew known = known ++ new ∧ new.Sublist exprs := by
  induction exprs generalizing known with
  | nil => exact ⟨[], by simp⟩
  | cons expr rest inductionHypothesis =>
      rw [List.foldl_cons, Expr.insertNew]
      split
      next =>
        obtain ⟨new, same, fewer⟩ := inductionHypothesis known
        exact ⟨new, same, fewer.cons expr⟩
      next =>
        obtain ⟨new, same, fewer⟩ := inductionHypothesis (known ++ [expr])
        refine ⟨expr :: new, ?_, fewer.cons_cons expr⟩
        rw [same, List.append_assoc]
        rfl

/-- No expression is lost if, and only if, none agrees with one before it. -/
theorem foldl_insertNew_eq_iff (known exprs : List Expr) :
    exprs.foldl Expr.insertNew known = known ++ exprs ↔
      (∀ before ∈ known, ∀ expr ∈ exprs, before.agrees expr = false) ∧
        exprs.Pairwise fun before expr => before.agrees expr = false := by
  induction exprs generalizing known with
  | nil => simp
  | cons expr rest inductionHypothesis =>
      rw [List.foldl_cons, Expr.insertNew]
      split
      -- What is known is not inserted, so the list would come out too short.
      next listed =>
        obtain ⟨new, same, fewer⟩ := foldl_insertNew_eq_append known rest
        obtain ⟨before, member, agrees⟩ := List.any_eq_true.mp listed
        constructor
        · intro whole
          rw [same, List.append_cancel_left_eq] at whole
          have shorter := fewer.length_le
          rw [whole, List.length_cons] at shorter
          omega
        · rintro ⟨apart, -⟩
          have different := apart before member expr List.mem_cons_self
          rw [agrees] at different
          cases different
      next unlisted =>
        have shift : known ++ expr :: rest = (known ++ [expr]) ++ rest := by simp
        have apart : ∀ before ∈ known, before.agrees expr = false := by
          intro before member
          apply Bool.eq_false_iff.mpr
          intro agrees
          exact unlisted (List.any_eq_true.mpr ⟨before, member, agrees⟩)
        rw [shift, inductionHypothesis, List.pairwise_cons]
        simp only [List.mem_append, List.mem_cons, List.not_mem_nil, or_false]
        constructor
        · rintro ⟨others, ordered⟩
          refine ⟨?_, ?_, ordered⟩
          · rintro before member other (rfl | later)
            · exact apart before member
            · exact others before (.inl member) other later
          · exact fun other later => others expr (.inr rfl) other later
        · rintro ⟨others, first, ordered⟩
          refine ⟨?_, ordered⟩
          rintro before (member | rfl) other later
          · exact others before member other (.inr later)
          · exact first other later

end Sheet

end Worksheet
