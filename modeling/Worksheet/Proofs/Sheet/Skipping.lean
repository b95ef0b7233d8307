import Worksheet.Proofs.Sheet.Repeating

/-!
# Texts that list nothing

A text lists nothing if what its segments mean is listed already, up to the first of them
that is refused if one is.  It leaves the sheet as it is, but for the variables, and the
version does not count it.
-/

namespace Worksheet

/-! ### Registered names -/

theorem Variables.declareAll_of_isRegistered {table : Variables} {names : List String}
    (registered : ∀ name ∈ names, table.isRegistered name = true) :
    table.declareAll names = table := by
  apply eq_of_find?
  intro other
  rw [find?_declareAll]
  split
  next member =>
    obtain ⟨stored, found⟩ := Option.isSome_iff_exists.mp (registered other member)
    rw [found]
    rfl
  next => rfl

theorem Dialect.isRegistered_readSegments {dialect : Dialect} {table table' : Variables}
    {segments : List (List Char)} {exprs : List Expr}
    (read : dialect.readSegments table segments = (.ok exprs, table')) :
    ∀ expr ∈ exprs, ∀ name ∈ expr.names, table'.isRegistered name = true := by
  induction segments generalizing table exprs with
  | nil =>
      cases read
      simp
  | cons segment rest inductionHypothesis =>
      rw [readSegments] at read
      split at read
      next => cases read
      next expr here =>
        obtain ⟨names, -, declared⟩ :=
          dialect.exists_names_readSegments (dialect.declared table segment) rest
        generalize reached : dialect.readSegments (dialect.declared table segment) rest = outcome
          at read declared
        obtain ⟨_ | others, last⟩ := outcome
        · cases read
        · cases read
          intro other member name inside
          rcases List.mem_cons.mp member with rfl | later
          · dsimp only at declared
            rw [declared, Variables.isRegistered_declareAll,
              Dialect.declared, Expr.namesRead_of_read here, Variables.isRegistered_declareAll]
            exact .inr (.inl inside)
          · exact inductionHypothesis reached other later name inside

/-! ### Segments that list nothing -/

namespace Dialect

variable {dialect : Dialect} {known : List Expr} {table middle last : Variables}
  {segment : List Char} {segments rest : List (List Char)} {error : Option SheetError}

/-- What the segments mean is known, up to the first of them that is refused if one is.
The variables are `table` before and `last` after. -/
inductive Skips (dialect : Dialect) (known : List Expr) :
    Variables → List (List Char) → Option SheetError → Variables → Prop where
  | done {table : Variables} : Skips dialect known table [] none table
  | refused {table : Variables} {segment : List Char} {rest : List (List Char)}
      {error : SheetError} (refuses : dialect.Refuses table segment error) :
      Skips dialect known table (segment :: rest) (some error) (dialect.declared table segment)
  | repeated {table middle last : Variables} {segment : List Char} {rest : List (List Char)}
      {error : Option SheetError} {expr : Expr} (means : dialect.Means segment expr)
      (listed : Expr.IsKnown known expr) (entered : table.entered expr = .ok middle)
      (skips : Skips dialect known middle rest error last) :
      Skips dialect known table (segment :: rest) error last

theorem Refuses.unique {first second : SheetError} (refuses : dialect.Refuses table segment first)
    (refuses' : dialect.Refuses table segment second) : first = second := by
  cases refuses with
  | unread read =>
      cases refuses' with
      | unread read' => cases read.symm.trans read'; rfl
      | unmade means _ => cases read.symm.trans means
  | unmade means refused =>
      cases refuses' with
      | unread read => cases read.symm.trans means
      | unmade means' refused' =>
          cases means.unique means'
          cases refused.symm.trans refused'
          rfl

theorem Refuses.not_entered {expr : Expr} {error : SheetError}
    (refuses : dialect.Refuses table segment error) (means : dialect.Means segment expr) :
    table.entered expr ≠ .ok middle := by
  intro entered
  cases refuses with
  | unread read => cases read.symm.trans means
  | unmade means' refused =>
      cases means.unique means'
      cases refused.symm.trans entered

theorem Skips.append (skips : dialect.Skips known table segments none middle)
    (later : dialect.Skips known middle rest error last) :
    dialect.Skips known table (segments ++ rest) error last := by
  generalize finished : (none : Option SheetError) = outcome at skips
  induction skips with
  | done => exact later
  | refused => cases finished
  | repeated means listed entered _ inductionHypothesis =>
      exact .repeated means listed entered (inductionHypothesis later finished)

theorem Skips.append_refused {error : SheetError}
    (skips : dialect.Skips known table segments (some error) last) (rest : List (List Char)) :
    dialect.Skips known table (segments ++ rest) (some error) last := by
  generalize stopped : some error = outcome at skips
  induction skips with
  | done => cases stopped
  | refused refuses => exact .refused refuses
  | repeated means listed entered _ inductionHypothesis =>
      exact .repeated means listed entered (inductionHypothesis stopped)

theorem Skips.of_append (skips : dialect.Skips known table (segments ++ rest) error last) :
    (∃ cause, error = some cause ∧ dialect.Skips known table segments (some cause) last) ∨
      ∃ middle, dialect.Skips known table segments none middle ∧
        dialect.Skips known middle rest error last := by
  induction segments generalizing table with
  | nil => exact .inr ⟨table, .done, skips⟩
  | cons segment segments inductionHypothesis =>
      cases skips with
      | refused refuses => exact .inl ⟨_, rfl, .refused refuses⟩
      | repeated means listed entered later =>
          rcases inductionHypothesis later with ⟨cause, stopped, first⟩ | ⟨middle, first, second⟩
          · exact .inl ⟨cause, stopped, .repeated means listed entered first⟩
          · exact .inr ⟨middle, .repeated means listed entered first, second⟩

end Dialect

namespace Sheet

variable {sheet middle after : Sheet} {dialect : Dialect} {known : List Expr}
  {table last : Variables} {segment : List Char} {segments : List (List Char)}
  {error : Option SheetError} {text : String}

def refusal : Option SheetError → Except SheetError Unit
  | none => .ok ()
  | some error => .error error

/-! ### Entering segments that list nothing -/

/-- Nothing but the variables and the vacant slots is other than before. -/
structure Spares (sheet : Sheet) (table : Variables) (after : Sheet) : Prop
    extends sheet.Grows [] [] after where
  same : after = { sheet with forest := after.forest }
  table : after.table = table

theorem Rooted.spares_refl (rooted : sheet.Rooted) : sheet.Spares sheet.table sheet :=
  ⟨rooted.grows_refl, rfl, rfl⟩

theorem Spares.trans {first second : Variables} (spares : sheet.Spares first middle)
    (later : middle.Spares second after) : sheet.Spares second after := by
  refine ⟨spares.toGrows.trans later.toGrows, ?_, later.table⟩
  rw [later.same, spares.same]

theorem Spares.holds (spares : sheet.Spares last after)
    (holds : sheet.Holds dialect known table) : after.Holds dialect known last := by
  have kept := spares.toGrows.holds holds.rooted
  rw [List.append_nil, holds.exprs, holds.dialect, spares.table] at kept
  exact kept

theorem merge_eq (sheet : Sheet) (expr : Expr) :
    ∃ forest listed, (sheet.merge expr).2 = { sheet with forest, listed } := by
  rw [merge]
  split
  next => exact ⟨_, _, rfl⟩
  next => split <;> exact ⟨_, _, rfl⟩

theorem enterSegment_eq (sheet : Sheet) (segment : List Char) :
    ∃ forest listed, (sheet.enterSegment segment).2 = { sheet with forest, listed } := by
  rw [enterSegment]
  split
  next => exact ⟨_, _, rfl⟩
  next expr _ =>
    obtain ⟨forest, listed, same⟩ :=
      merge_eq (sheet.withTable (sheet.dialect.declared sheet.table segment)) expr
    exact ⟨forest, listed, same⟩

theorem enterSegments_eq (sheet : Sheet) (segments : List (List Char)) :
    ∃ forest listed, (sheet.enterSegments segments).2.2 = { sheet with forest, listed } := by
  induction segments generalizing sheet with
  | nil => exact ⟨_, _, rfl⟩
  | cons segment rest inductionHypothesis =>
      obtain ⟨forest, listed, same⟩ := sheet.enterSegment_eq segment
      rw [enterSegments]
      split
      next failed =>
        rw [failed] at same
        exact ⟨forest, listed, same⟩
      next done =>
        rw [done] at same
        dsimp only at same
        subst same
        obtain ⟨forest', listed', same⟩ := inductionHypothesis { sheet with forest, listed }
        exact ⟨forest', listed', same⟩

theorem Grows.spares (grows : sheet.Grows [] [] after) {forest : Forest} {listed : List Handle}
    (same : after = { sheet with forest, listed }) : sheet.Spares after.table after := by
  refine ⟨grows, ?_, rfl⟩
  have listed := grows.listed
  subst same
  dsimp only at listed ⊢
  rw [listed, List.append_nil]

theorem Entered.of_single {expr : Expr} {nodes : List Handle} {new : List Expr}
    (entered : sheet.Entered [segment] [expr] nodes new after) :
    sheet.dialect.Means segment expr ∧ sheet.table.entered expr = .ok after.table := by
  have replayed := entered.replayed
  rw [Variables.replay, List.foldlM_cons] at replayed
  obtain ⟨table, done, finished⟩ := bind_eq_ok_iff.mp replayed
  cases finished
  exact ⟨(List.forall₂_cons.mp entered.means).1, done⟩

theorem Entered.isKnown_iff {expr : Expr} {nodes : List Handle} {new : List Expr}
    (entered : sheet.Entered [segment] [expr] nodes new after) :
    Expr.IsKnown sheet.exprs expr ↔ nodes = [] := by
  constructor
  · intro listed
    exact (entered.eq_nil (List.forall_mem_singleton.mpr listed)).1
  · rintro rfl
    have none : new = [] := List.map_eq_nil_iff.mp entered.found.symm
    have inserted := entered.inserted
    rw [none, List.append_nil, List.foldl_cons, List.foldl_nil, Expr.insertNew] at inserted
    split at inserted
    next listed => exact listed
    next => cases List.append_right_eq_self.mp inserted

theorem Rooted.spares_of_entered (rooted : sheet.Rooted) {expr : Expr}
    (means : sheet.dialect.Means segment expr) (listed : Expr.IsKnown sheet.exprs expr)
    (entered : sheet.table.entered expr = .ok table) :
    ∃ after, sheet.enterSegment segment = (.ok false, after) ∧ sheet.Spares table after := by
  obtain ⟨nodes, new, after, step, whole⟩ := rooted.entered_of_means means entered
  obtain ⟨rfl, rfl⟩ := whole.eq_nil (List.forall_mem_singleton.mpr listed)
  obtain ⟨forest, nodes, same⟩ := sheet.enterSegment_eq segment
  rw [step] at same
  cases entered.symm.trans whole.of_single.2
  exact ⟨after, step, whole.toGrows.spares same⟩

theorem Rooted.spares_of_refuses (rooted : sheet.Rooted) {error : SheetError}
    (refuses : sheet.dialect.Refuses sheet.table segment error) :
    ∃ after, sheet.enterSegment segment = (.error error, after) ∧
      sheet.Spares (sheet.dialect.declared sheet.table segment) after := by
  rcases rooted.enterSegment_cases segment with
    ⟨expr, nodes, new, after, -, entered⟩ | ⟨error', after, step, refuses', spared, declared⟩
  · obtain ⟨means, done⟩ := entered.of_single
    exact absurd done (refuses.not_entered means)
  · cases refuses.unique refuses'
    obtain ⟨forest, nodes, same⟩ := sheet.enterSegment_eq segment
    rw [step] at same
    exact ⟨after, step, declared ▸ spared.spares same⟩

theorem Holds.enterSegments_of_skips (holds : sheet.Holds dialect known table)
    (skips : dialect.Skips known table segments error last) :
    ∃ after, sheet.enterSegments segments = (refusal error, false, after) ∧
      sheet.Spares last after := by
  induction skips generalizing sheet with
  | done => exact ⟨sheet, rfl, holds.table ▸ holds.rooted.spares_refl⟩
  | refused refuses =>
      rw [← holds.dialect, ← holds.table] at refuses ⊢
      obtain ⟨after, step, spares⟩ := holds.rooted.spares_of_refuses refuses
      exact ⟨after, enterSegments_of_error step _, spares⟩
  | repeated means listed entered _ inductionHypothesis =>
      rw [← holds.dialect] at means
      rw [← holds.exprs] at listed
      rw [← holds.table] at entered
      obtain ⟨middle, step, spares⟩ := holds.rooted.spares_of_entered means listed entered
      obtain ⟨after, done, later⟩ := inductionHypothesis (spares.holds holds)
      refine ⟨after, ?_, spares.trans later⟩
      rw [enterSegments_of_ok step, done]
      rfl

theorem Holds.skips_of_enterSegments (holds : sheet.Holds dialect known table)
    (still : (sheet.enterSegments segments).2.1 = false) :
    ∃ error last, dialect.Skips known table segments error last := by
  induction segments generalizing sheet table with
  | nil => exact ⟨none, table, .done⟩
  | cons segment rest inductionHypothesis =>
      rcases holds.rooted.enterSegment_cases segment with
        ⟨expr, nodes, new, middle, step, entered⟩ | ⟨cause, after, -, refuses, -, -⟩
      · rw [enterSegments_of_ok step, Bool.or_eq_false_iff] at still
        have listed := entered.isKnown_iff.mpr (by simpa using still.1)
        obtain ⟨means, done⟩ := entered.of_single
        obtain ⟨-, rfl⟩ := entered.eq_nil (List.forall_mem_singleton.mpr listed)
        have kept := entered.toGrows.holds holds.rooted
        rw [List.append_nil, holds.exprs, holds.dialect] at kept
        obtain ⟨error, last, skips⟩ := inductionHypothesis kept still.2
        rw [holds.dialect] at means
        rw [holds.exprs] at listed
        rw [holds.table] at done
        exact ⟨error, last, .repeated means listed done skips⟩
      · rw [holds.dialect, holds.table] at refuses
        exact ⟨some cause, _, .refused refuses⟩

/-! ### Entering texts and lines -/

theorem enter_eq_enterSegments (sheet : Sheet) (text : String) :
    sheet.enter text =
      ((sheet.enterSegments (sheet.dialect.segments text)).1.map fun _ =>
          (sheet.enterSegments (sheet.dialect.segments text)).2.1,
        if (sheet.enterSegments (sheet.dialect.segments text)).2.1 then
          (sheet.enterSegments (sheet.dialect.segments text)).2.2.refreshRoot
        else (sheet.enterSegments (sheet.dialect.segments text)).2.2) := rfl

theorem version_enter (sheet : Sheet) (text : String) :
    (sheet.enter text).2.version =
      sheet.version + (sheet.enterSegments (sheet.dialect.segments text)).2.1.toNat := by
  obtain ⟨forest, listed, same⟩ := sheet.enterSegments_eq (sheet.dialect.segments text)
  rw [enter_eq_enterSegments, same]
  cases (sheet.enterSegments (sheet.dialect.segments text)).2.1 <;> rfl

theorem version_le_enter (sheet : Sheet) (text : String) :
    sheet.version ≤ (sheet.enter text).2.version := by
  rw [version_enter]
  exact Nat.le_add_right _ _

theorem Holds.enter_of_skips (holds : sheet.Holds dialect known table)
    (skips : dialect.Skips known table (dialect.segments text) error last) :
    ∃ after, sheet.enter text = ((refusal error).map fun _ => false, after) ∧
      sheet.Spares last after := by
  rw [enter_eq_enterSegments, holds.dialect]
  obtain ⟨after, done, spares⟩ := holds.enterSegments_of_skips skips
  rw [done]
  exact ⟨after, rfl, spares⟩

theorem Holds.skips_of_enter (holds : sheet.Holds dialect known table)
    (still : (sheet.enter text).2.version = sheet.version) :
    ∃ error last, dialect.Skips known table (dialect.segments text) error last := by
  rw [version_enter, Nat.add_eq_left, Bool.toNat_eq_zero, holds.dialect] at still
  exact holds.skips_of_enterSegments still

def lineSegments (dialect : Dialect) (lines : List (List Char)) : List (List Char) :=
  lines.flatMap fun line => dialect.segments (String.ofList line)

theorem version_le_enterLines (sheet : Sheet) (lines : List (List Char)) :
    sheet.version ≤ (sheet.enterLines lines).2.version := by
  induction lines generalizing sheet with
  | nil => exact Nat.le_refl _
  | cons line rest inductionHypothesis =>
      have step := sheet.version_le_enter (String.ofList line)
      rw [enterLines]
      split
      next failed =>
        rw [failed] at step
        exact step
      next done =>
        rw [done] at step
        exact step.trans (inductionHypothesis _)

theorem Holds.enterLines_of_skips {lines : List (List Char)}
    (holds : sheet.Holds dialect known table)
    (skips : dialect.Skips known table (lineSegments dialect lines) error last) :
    ∃ after, sheet.enterLines lines = (refusal error, after) ∧ sheet.Spares last after := by
  induction lines generalizing sheet table with
  | nil =>
      cases skips
      exact ⟨sheet, rfl, holds.table ▸ holds.rooted.spares_refl⟩
  | cons line rest inductionHypothesis =>
      rw [lineSegments, List.flatMap_cons] at skips
      rcases skips.of_append with ⟨cause, rfl, first⟩ | ⟨middle, first, second⟩
      · obtain ⟨after, done, spares⟩ := holds.enter_of_skips first
        exact ⟨after, by rw [enterLines, done]; rfl, spares⟩
      · obtain ⟨between, done, spares⟩ := holds.enter_of_skips first
        obtain ⟨after, finished, later⟩ := inductionHypothesis (spares.holds holds) second
        refine ⟨after, ?_, spares.trans later⟩
        rw [enterLines, done]
        exact finished

theorem Holds.skips_of_enterLines {lines : List (List Char)}
    (holds : sheet.Holds dialect known table)
    (still : (sheet.enterLines lines).2.version = sheet.version) :
    ∃ error last, dialect.Skips known table (lineSegments dialect lines) error last := by
  induction lines generalizing sheet table with
  | nil => exact ⟨none, table, .done⟩
  | cons line rest inductionHypothesis =>
      rw [lineSegments, List.flatMap_cons]
      have step := sheet.version_le_enter (String.ofList line)
      have first : (sheet.enter (String.ofList line)).2.version = sheet.version := by
        rw [enterLines] at still
        split at still
        next failed =>
          rw [failed]
          exact still
        next middle done =>
          rw [done] at step ⊢
          exact Nat.le_antisymm (still ▸ middle.version_le_enterLines rest) step
      obtain ⟨error, last, skips⟩ := holds.skips_of_enter first
      obtain ⟨middle, done, spares⟩ := holds.enter_of_skips skips
      cases error with
      | some cause => exact ⟨some cause, last, skips.append_refused _⟩
      | none =>
          rw [done] at first
          rw [enterLines, done] at still
          obtain ⟨error, last, later⟩ :=
            inductionHypothesis (spares.holds holds) (still.trans first.symm)
          exact ⟨error, last, skips.append later⟩

end Sheet

end Worksheet
