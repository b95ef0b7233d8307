import Worksheet.Proofs.Sheet.Versions

/-!
# What loading reports, and what a refused file leaves

Loading answers whether anything has changed.  Where the file is added, that is the truth.
Where it takes the place of the sheet's content, the content is forgotten first, and the answer
tells only whether there is something in the file; and it is forgotten also if the file then
turns out to be for numbers of an unknown kind.
-/

namespace Worksheet

/-- The error is about an expression that is entered, and not about the file that it is in. -/
def SheetError.IsTextual : SheetError → Prop
  | .read _ | .fault _ => True
  | _ => False

/-! ### Tables that agree -/

namespace Entry

variable {left right : List Entry}

/-- Neither place has an entry, or both have one, with values that are equal as numbers or with
none. -/
abbrev Same (first second : Option (Option Number)) : Prop :=
  Option.Rel (fun first second => Variables.sameValue first second = true) first second

theorem same_lookup (names : left.map (·.1) = right.map (·.1))
    (values : ∀ pair ∈ left.zip right, Variables.sameValue pair.1.2 pair.2.2 = true)
    (name : String) : Same (left.lookup name) (right.lookup name) := by
  induction left generalizing right with
  | nil =>
      obtain rfl : right = [] := List.map_eq_nil_iff.mp names.symm
      exact .none
  | cons first rest inductionHypothesis =>
      cases right with
      | nil => cases names
      | cons second rest' =>
          obtain ⟨(here : first.1 = second.1), later⟩ := List.cons.inj names
          rw [lookup_cons, lookup_cons, here]
          split
          next => exact .some (values (first, second) List.mem_cons_self)
          next =>
            exact inductionHypothesis later fun pair member =>
              values pair (List.mem_cons_of_mem _ member)

theorem sameValue_of_lookup (sorted : left.Pairwise fun left right => left.1 < right.1)
    (sorted' : right.Pairwise fun left right => left.1 < right.1)
    (names : left.map (·.1) = right.map (·.1))
    (same : ∀ name, Same (left.lookup name) (right.lookup name)) :
    ∀ pair ∈ left.zip right, Variables.sameValue pair.1.2 pair.2.2 = true := by
  induction left generalizing right with
  | nil => simp
  | cons first rest inductionHypothesis =>
      cases right with
      | nil => cases names
      | cons second rest' =>
          obtain ⟨(here : first.1 = second.1), later⟩ := List.cons.inj names
          rw [List.zip_cons_cons, List.forall_mem_cons]
          refine ⟨?_, inductionHypothesis (List.pairwise_cons.mp sorted).2
            (List.pairwise_cons.mp sorted').2 later fun name => ?_⟩
          · have found := same first.1
            rw [lookup_cons, lookup_cons, if_pos rfl, if_pos here] at found
            cases found with
            | some value => exact value
          · by_cases head : name = first.1
            · rw [head, lookup_head_eq_none sorted, here, lookup_head_eq_none sorted']
              exact .none
            · have found := same name
              rwa [lookup_cons, lookup_cons, if_neg head, if_neg (here ▸ head)] at found

end Entry

namespace Variables

/-- The tables have the same names, and under each of them values that are equal as numbers,
or no values. -/
def Agree (left right : Variables) : Prop :=
  ∀ name, Entry.Same (left.find? name) (right.find? name)

theorem agrees_eq_true_iff {left right : Variables} :
    left.agrees right = true ↔ left.Agree right := by
  rw [agrees, Bool.and_eq_true, decide_eq_true_eq, List.all_eq_true]
  constructor
  · rintro ⟨sameNames, values⟩ name
    exact Entry.same_lookup sameNames values name
  · intro agree
    -- Without their values the tables are the same.
    have cleared : left.clearAll = right.clearAll := by
      refine eq_of_find? fun name => ?_
      rw [find?_clearAll, find?_clearAll]
      have same := agree name
      cases found : left.find? name <;> cases found' : right.find? name <;>
        simp_all
    have sameNames : left.names = right.names := by
      have same := congrArg (fun table => table.entries.map (·.1)) cleared
      simpa [clearAll, names, Function.comp_def] using same
    exact ⟨sameNames, Entry.sameValue_of_lookup left.sorted right.sorted sameNames agree⟩

theorem agree_empty_iff {table : Variables} : Agree .empty table ↔ table = .empty := by
  constructor
  · intro agree
    refine eq_of_find? fun name => ?_
    have same := agree name
    rw [find?_empty] at same ⊢
    cases found : table.find? name with
    | none => rfl
    | some value =>
        rw [found] at same
        cases same
  · rintro rfl name
    exact .none

end Variables

namespace Sheet

variable {sheet other after : Sheet} {folder : Folder} {name : String} {append changed : Bool}
  {lines : List (List Char)}

/-! ### Sheets that differ -/

/-- The sheets show other expressions, or other variables. -/
def Differs (sheet other : Sheet) : Prop :=
  sheet.renderings ≠ other.renderings ∨ ¬sheet.table.Agree other.table

theorem sameContent_eq_true_iff : sheet.sameContent other = true ↔ ¬sheet.Differs other := by
  rw [sameContent, Bool.and_eq_true, decide_eq_true_eq, Variables.agrees_eq_true_iff, Differs,
    not_or, not_not, not_not]

/-- Nothing is listed, and no name is registered. -/
def Blank (sheet : Sheet) : Prop :=
  sheet.listed = [] ∧ sheet.table = .empty

theorem blank_clear (sheet : Sheet) : sheet.clear.Blank := ⟨rfl, rfl⟩

theorem Blank.differs_iff (blank : sheet.Blank) : sheet.Differs other ↔ ¬other.Blank := by
  rw [Differs, renderings, blank.1, List.map_nil, blank.2, Variables.agree_empty_iff, renderings,
    ne_comm, Ne, List.map_eq_nil_iff, Blank, not_and_or]

theorem Blank.text_eq (blank : sheet.Blank) : sheet.text = "" := by
  obtain ⟨listed, table⟩ := blank
  rw [text, lines, impliedAssignments, renderings, listed, table]
  rfl

/-! ### What is listed once something has been entered -/

theorem listed_of_merge {expr : Expr} {grew : Bool} (done : sheet.merge expr = (.ok grew, after)) :
    after.listed ≠ [] := by
  rw [merge] at done
  split at done
  next => cases done
  next node forest _ =>
    split at done
    next known =>
      cases done
      rintro listed
      simp [show sheet.listed = [] from listed] at known
    next =>
      cases done
      simp

theorem listed_of_enterSegment {segment : List Char} {grew : Bool}
    (done : sheet.enterSegment segment = (.ok grew, after)) : after.listed ≠ [] := by
  rw [enterSegment] at done
  split at done
  next => cases done
  next => exact listed_of_merge done

theorem listed_of_enterSegments {segments : List (List Char)} {grew : Bool}
    (some : sheet.listed ≠ [] ∨ segments ≠ [])
    (done : sheet.enterSegments segments = (.ok (), grew, after)) : after.listed ≠ [] := by
  induction segments generalizing sheet grew with
  | nil =>
      cases done
      exact some.resolve_right (by simp)
  | cons segment rest inductionHypothesis =>
      rw [enterSegments] at done
      split at done
      next => cases done
      next first middle here =>
        generalize reached : middle.enterSegments rest = outcome at done
        obtain ⟨answer, later, last⟩ := outcome
        cases done
        exact inductionHypothesis (.inl (listed_of_enterSegment here)) reached

theorem listed_of_enter {text : String} {grew : Bool}
    (done : sheet.enter text = (.ok grew, after)) : after.listed ≠ [] := by
  rw [enter_eq_enterSegments] at done
  generalize reached : sheet.enterSegments (sheet.dialect.segments text) = outcome at done
  obtain ⟨answer, later, last⟩ := outcome
  cases answer with
  | error error => cases done
  | ok _ =>
      have filled := listed_of_enterSegments (.inr (List.cons_ne_nil _ _)) reached
      cases later with
      | false =>
          cases done
          exact filled
      | true =>
          cases done
          exact filled

theorem listed_of_enterLines (some : sheet.listed ≠ [] ∨ lines ≠ [])
    (done : sheet.enterLines lines = (.ok (), after)) : after.listed ≠ [] := by
  induction lines generalizing sheet with
  | nil =>
      cases done
      exact some.resolve_right (by simp)
  | cons line rest inductionHypothesis =>
      rw [enterLines] at done
      split at done
      next => cases done
      next grew middle here => exact inductionHypothesis (.inl (listed_of_enter here)) done

/-! ### Files in place of the content -/

/-- The lines of a file that hold expressions. -/
def bodyLines : List (List Char) → List (List Char)
  | [] => []
  | first :: others => if (typeName? first).isSome then others else first :: others

theorem Blank.setKind (blank : sheet.Blank) (kind : Kind) :
    ∃ answer after, sheet.setKind kind = (.ok answer, after) ∧ after.Blank := by
  rw [Sheet.setKind]
  split
  next => exact ⟨false, sheet, rfl, blank⟩
  next =>
    rw [blank.text_eq]
    exact ⟨true, _, rfl, rfl, rfl⟩

theorem Blank.applyType (blank : sheet.Blank)
    (done : sheet.applyType name append = (.ok (), after)) : after.Blank := by
  rw [Sheet.applyType] at done
  split at done
  next => cases done
  next kind _ =>
    split at done
    next => cases done
    next =>
      obtain ⟨answer, switched, same, still⟩ := blank.setKind kind
      rw [same] at done
      cases done
      exact still

theorem Blank.enterFile (blank : sheet.Blank)
    (done : sheet.enterFile append lines = (.ok (), after)) :
    bodyLines lines = [] ∧ after.Blank ∨ bodyLines lines ≠ [] ∧ after.listed ≠ [] := by
  have entered {sheet : Sheet} (blank : sheet.Blank) {lines : List (List Char)}
      (done : sheet.enterLines lines = (.ok (), after)) :
      lines = [] ∧ after.Blank ∨ lines ≠ [] ∧ after.listed ≠ [] := by
    by_cases none : lines = []
    · subst none
      cases done
      exact .inl ⟨rfl, blank⟩
    · exact .inr ⟨none, listed_of_enterLines (.inr none) done⟩
  cases lines with
  | nil =>
      cases done
      exact .inl ⟨rfl, blank⟩
  | cons first others =>
      rw [Sheet.enterFile] at done
      rw [bodyLines]
      cases typed : typeName? first with
      | none =>
          rw [typed] at done
          exact entered blank done
      | some name =>
          rw [typed] at done
          dsimp only at done
          split at done
          next => cases done
          next middle switched => exact entered (blank.applyType switched) done

/-! ### Reports -/

theorem load_eq_ok_iff :
    sheet.load folder name append = (.ok changed, after) ↔
      ∃ content entered, folder.read name = .ok content ∧
        (if append then sheet else sheet.clear).enterFile append
          (Text.filledLines content.toList) = (.ok (), entered) ∧
        changed = !entered.sameContent (if append then sheet else sheet.clear) ∧
        after = { entered with file := some name }.touched := by
  rw [load]
  constructor
  · intro done
    split at done
    next => cases done
    next content read =>
      dsimp only at done
      split at done
      next => cases done
      next entered loaded =>
        cases done
        exact ⟨content, entered, read, loaded, rfl, rfl⟩
  · rintro ⟨content, entered, read, loaded, rfl, rfl⟩
    rw [read]
    dsimp only
    rw [loaded]

/-- A file that is added is reported truly.  For one in place of the sheet's content the report is
whether there are expressions in the file. -/
theorem load_reported (done : sheet.load folder name append = (.ok changed, after)) :
    (append = true → (changed = true ↔ after.Differs sheet)) ∧
    (append = false →
      (changed = true ↔ ∃ content, folder.read name = .ok content ∧
        bodyLines (Text.filledLines content.toList) ≠ []) ∧
      (changed = true → after.listed ≠ []) ∧ (changed = false → after.Blank)) ∧
    ((changed = true ↔ after.Differs sheet) ↔
      append = true ∨ changed = true ∧ after.Differs sheet ∨ changed = false ∧ sheet.Blank) := by
  obtain ⟨content, entered, read, loaded, report, rfl⟩ := load_eq_ok_iff.mp done
  have told {before : Sheet} (report : changed = !entered.sameContent before) :
      changed = true ↔ entered.Differs before := by
    rw [report, Bool.not_eq_true', ← Bool.not_eq_true, sameContent_eq_true_iff, not_not]
  cases append with
  | true =>
      have truth := told report
      exact ⟨fun _ => truth, nofun, iff_of_true truth (Or.inl rfl)⟩
  | false =>
      rcases sheet.blank_clear.enterFile loaded with ⟨none, blank⟩ | ⟨some, listed⟩
      · -- Nothing is told from the sheet that has been cleared, whatever was there before.
        have same : changed = false := by
          rw [← Bool.not_eq_true, told report, blank.differs_iff, not_not]
          exact sheet.blank_clear
        subst same
        have differs_iff : ({ entered with file := name } : Sheet).touched.Differs sheet ↔
            ¬sheet.Blank := blank.differs_iff
        refine ⟨nofun, fun _ => ⟨iff_of_false nofun ?_, nofun, fun _ => blank⟩, ?_⟩
        · rintro ⟨_, read', filled⟩
          cases read.symm.trans read'
          exact filled none
        · simp [differs_iff]
      · have same : changed = true :=
          (told report).mpr (.inl fun same => listed (List.map_eq_nil_iff.mp same))
        subst same
        refine ⟨nofun, fun _ => ⟨iff_of_true rfl ⟨content, read, some⟩, fun _ => listed, nofun⟩, ?_⟩
        simp

/-- A sheet is loaded from the file that it was saved to, and is told to have changed. -/
theorem load_reported_unchanged :
    let sheet := (new .standard).acts [.own (.enter (some "a = 1"))]
    let folder := Folder.empty.put "f" "type int\na = 1\n".toUTF8
    let after := (sheet.load folder "f" false).2
    sheet.Attainable ∧ sheet.load folder "f" false = (.ok true, after) ∧
      after.listed ≠ [] ∧ ¬after.Differs sheet := by
  intro sheet folder after
  have done : sheet.load folder "f" false = (.ok true, after) := by
    refine Prod.ext ?_ rfl
    unfold sheet folder
    cbv
  have listed := ((load_reported done).2.1 rfl).2.1 rfl
  refine ⟨⟨_, _, rfl⟩, done, listed, ?_⟩
  apply sameContent_eq_true_iff.mp
  unfold after sheet folder
  cbv

/-- An empty file takes the place of an expression, and the sheet is told not to have changed. -/
theorem loss_unreported :
    let sheet := (new .standard).acts [.own (.enter (some "a"))]
    let folder := Folder.empty.put "f" "".toUTF8
    ∃ after, sheet.Attainable ∧ sheet.load folder "f" false = (.ok false, after) ∧
      sheet.renderings = ["a"] ∧ after.renderings = [] ∧ after.Differs sheet := by
  intro sheet folder
  have before : sheet.renderings = ["a"] := by
    unfold sheet
    cbv
  have gone : (sheet.load folder "f" false).2.renderings = [] := by
    unfold sheet folder
    cbv
  refine ⟨(sheet.load folder "f" false).2, ⟨_, _, rfl⟩, Prod.ext ?_ rfl, before, gone, .inl ?_⟩
  · unfold sheet folder
    cbv
  · rw [before, gone]
    simp

/-! ### Errors of expressions -/

theorem isTextual_of_merge {expr : Expr} {error : SheetError}
    (failed : (sheet.merge expr).1 = .error error) : error.IsTextual := by
  rw [merge] at failed
  split at failed
  next =>
    cases failed
    trivial
  next => split at failed <;> cases failed

theorem isTextual_of_enterSegment {segment : List Char} {error : SheetError}
    (failed : (sheet.enterSegment segment).1 = .error error) : error.IsTextual := by
  rw [enterSegment] at failed
  split at failed
  next =>
    cases failed
    trivial
  next => exact isTextual_of_merge failed

theorem isTextual_of_enterSegments {segments : List (List Char)} {error : SheetError}
    (failed : (sheet.enterSegments segments).1 = .error error) : error.IsTextual := by
  induction segments generalizing sheet with
  | nil => cases failed
  | cons segment rest inductionHypothesis =>
      rw [enterSegments] at failed
      split at failed
      next here =>
        cases failed
        exact isTextual_of_enterSegment (congrArg Prod.fst here)
      next => exact inductionHypothesis failed

theorem isTextual_of_enter {text : String} {error : SheetError}
    (failed : (sheet.enter text).1 = .error error) : error.IsTextual := by
  rw [enter_eq_enterSegments] at failed
  cases entered : (sheet.enterSegments (sheet.dialect.segments text)).1 with
  | error error' =>
      rw [entered] at failed
      cases failed
      exact isTextual_of_enterSegments entered
  | ok _ =>
      rw [entered] at failed
      cases failed

theorem isTextual_of_enterLines {error : SheetError}
    (failed : (sheet.enterLines lines).1 = .error error) : error.IsTextual := by
  induction lines generalizing sheet with
  | nil => cases failed
  | cons line rest inductionHypothesis =>
      rw [enterLines] at failed
      split at failed
      next here =>
        cases failed
        exact isTextual_of_enter (congrArg Prod.fst here)
      next => exact inductionHypothesis failed

theorem isTextual_of_setKind {kind : Kind} {error : SheetError}
    (failed : (sheet.setKind kind).1 = .error error) : error.IsTextual := by
  rw [Sheet.setKind] at failed
  split at failed
  next => cases failed
  next =>
    dsimp only at failed
    split at failed
    next => cases failed
    next =>
      exact isTextual_of_enter (error_of_map failed)

/-! ### Files that are refused -/

/-- The name on the type line is not that of a kind of numbers that the sheet can turn to. -/
def RefusesKind (sheet : Sheet) (append : Bool) (kindName : String) : Prop :=
  ∀ kind, Kind.ofName? kindName = some kind → append = true ∧ kind ≠ sheet.kind

def RefusesLines (sheet : Sheet) (append : Bool) (lines : List (List Char)) (kindName : String) :
    Prop :=
  ∃ first others, lines = first :: others ∧ typeName? first = some kindName ∧
    sheet.RefusesKind append kindName

theorem applyType_of_refusesKind {kindName : String} (refuses : sheet.RefusesKind append kindName) :
    sheet.applyType kindName append = (.error (.unknownKind kindName), sheet) := by
  rw [Sheet.applyType]
  split
  next => rfl
  next kind found =>
    obtain ⟨rfl, other⟩ := refuses kind found
    rw [if_pos (by simpa using other)]

theorem isTextual_of_applyType {kindName : String} {error : SheetError}
    (taken : ¬sheet.RefusesKind append kindName)
    (failed : (sheet.applyType kindName append).1 = .error error) : error.IsTextual := by
  rw [Sheet.applyType] at failed
  split at failed
  next unknown => exact absurd (fun kind found => by cases unknown.symm.trans found) taken
  next kind found =>
    split at failed
    next other =>
      refine absurd (fun kind' found' => ?_) taken
      cases found.symm.trans found'
      simpa using other
    next =>
      exact isTextual_of_setKind (error_of_map failed)

theorem enterFile_of_refusesLines {kindName : String}
    (refuses : sheet.RefusesLines append lines kindName) :
    sheet.enterFile append lines = (.error (.unknownKind kindName), sheet) := by
  obtain ⟨first, others, rfl, typed, refuses⟩ := refuses
  rw [Sheet.enterFile, typed]
  dsimp only
  rw [applyType_of_refusesKind refuses]

theorem isTextual_of_enterFile {error : SheetError}
    (taken : ∀ kindName, ¬sheet.RefusesLines append lines kindName)
    (failed : (sheet.enterFile append lines).1 = .error error) : error.IsTextual := by
  cases lines with
  | nil => cases failed
  | cons first others =>
      rw [Sheet.enterFile] at failed
      split at failed
      next => exact isTextual_of_enterLines failed
      next kindName typed =>
        split at failed
        next here =>
          cases failed
          exact isTextual_of_applyType
            (fun refuses => taken kindName ⟨first, others, rfl, typed, refuses⟩)
            (congrArg Prod.fst here)
        next => exact isTextual_of_enterLines failed

theorem load_of_read_error {fault : FolderFault} (failed : folder.read name = .error fault)
    (append : Bool) : sheet.load folder name append = (.error (.folder fault), sheet) := by
  rw [load, failed]

theorem load_of_refusesLines {content kindName : String} (read : folder.read name = .ok content)
    (refuses : sheet.RefusesLines append (Text.filledLines content.toList) kindName) :
    sheet.load folder name append =
      (.error (.unknownKind kindName), if append then sheet else sheet.clear) := by
  have refuses' : (if append then sheet else sheet.clear).RefusesLines append
      (Text.filledLines content.toList) kindName := by
    cases append with
    | true => exact refuses
    | false => exact refuses
  rw [load, read]
  dsimp only
  rw [enterFile_of_refusesLines refuses']

theorem isTextual_of_load {content : String} {error : SheetError}
    (read : folder.read name = .ok content)
    (taken : ∀ kindName,
      ¬sheet.RefusesLines append (Text.filledLines content.toList) kindName)
    (failed : (sheet.load folder name append).1 = .error error) : error.IsTextual := by
  have taken' (kindName : String) : ¬(if append then sheet else sheet.clear).RefusesLines append
      (Text.filledLines content.toList) kindName := by
    cases append with
    | true => exact taken kindName
    | false => exact taken kindName
  rw [load, read] at failed
  dsimp only at failed
  split at failed
  next here =>
    cases failed
    exact isTextual_of_enterFile taken' (congrArg Prod.fst here)
  next => cases failed

/-- Loading is refused if the file cannot be read or its first line names a kind that the sheet
cannot turn to.  In the second case a content that was to be replaced is gone. -/
theorem load_refused (sheet : Sheet) (folder : Folder) (name : String) (append : Bool) :
    (∀ fault, (sheet.load folder name append).1 = .error (.folder fault) ↔
      folder.read name = .error fault) ∧
    (∀ fault, folder.read name = .error fault → (sheet.load folder name append).2 = sheet) ∧
    (∀ kindName, (sheet.load folder name append).1 = .error (.unknownKind kindName) ↔
      ∃ content, folder.read name = .ok content ∧
        sheet.RefusesLines append (Text.filledLines content.toList) kindName) ∧
    (∀ kindName, (sheet.load folder name append).1 = .error (.unknownKind kindName) →
      (append = true → (sheet.load folder name append).2 = sheet) ∧
      (append = false → (sheet.load folder name append).2 = sheet.clear ∧
        (sheet.load folder name append).2 ≠ sheet)) := by
  cases read : folder.read name with
  | error fault =>
      rw [load_of_read_error read]
      simp
  | ok content =>
      have refused {kindName : String}
          (refuses : sheet.RefusesLines append (Text.filledLines content.toList) kindName) :=
        load_of_refusesLines read refuses
      -- The reasons exclude each other, since an error about an expression is neither.
      have refuses_of_unknownKind {kindName : String}
          (failed : (sheet.load folder name append).1 = .error (.unknownKind kindName)) :
          sheet.RefusesLines append (Text.filledLines content.toList) kindName := by
        by_contra taken
        refine isTextual_of_load read (fun kindName' refuses => taken ?_) failed
        rw [refused refuses] at failed
        cases failed
        exact refuses
      have not_folder (fault : FolderFault) :
          (sheet.load folder name append).1 ≠ .error (.folder fault) := by
        intro failed
        refine isTextual_of_load read (fun kindName refuses => ?_) failed
        rw [refused refuses] at failed
        cases failed
      refine ⟨fun fault => iff_of_false (not_folder fault) nofun, nofun, fun kindName => ?_,
        fun kindName failed => ?_⟩
      · constructor
        · exact fun failed => ⟨content, rfl, refuses_of_unknownKind failed⟩
        · rintro ⟨_, same, refuses⟩
          cases same
          rw [refused refuses]
      · rw [refused (refuses_of_unknownKind failed)]
        refine ⟨fun added => if_pos added, fun replaced => ?_⟩
        subst replaced
        refine ⟨rfl, fun same => ?_⟩
        exact absurd (congrArg version same) (Nat.succ_ne_self sheet.version)

/-- A file of other numbers is not added, and the sheet stays. -/
theorem load_refused_added :
    let sheet := (new .standard).acts [.own (.enter (some "a = 1"))]
    let folder := Folder.empty.put "f" "type float\nb = 2.0\n".toUTF8
    sheet.Attainable ∧ (sheet.load folder "f" true).1 = .error (.unknownKind "float") ∧
      (sheet.load folder "f" true).2 = sheet := by
  intro sheet folder
  have failed : (sheet.load folder "f" true).1 = .error (.unknownKind "float") := by
    unfold sheet folder
    cbv
  exact ⟨⟨_, _, rfl⟩, failed, ((load_refused sheet folder "f" true).2.2.2 _ failed).1 rfl⟩

/-- A file for numbers of an unknown kind is refused, and an expression and a variable with its
value are gone. -/
theorem lost_by_refused_load :
    let sheet := (new .standard).acts [.own (.enter (some "a = 1"))]
    let folder := Folder.empty.put "f" "type complex\n".toUTF8
    let after := (sheet.load folder "f" false).2
    sheet.Attainable ∧ (sheet.load folder "f" false).1 = .error (.unknownKind "complex") ∧
      sheet.renderings = ["a = 1"] ∧ sheet.table.value? "a" = some (.int 1) ∧ sheet.version = 1 ∧
      after.renderings = [] ∧ after.table.names = [] ∧ after.version = 2 := by
  intro sheet folder after
  refine ⟨⟨_, _, rfl⟩, ?_, ?_, ?_, ?_, ?_, ?_, ?_⟩
  all_goals
    dsimp only [after, folder, sheet]
    cbv

end Sheet

end Worksheet
