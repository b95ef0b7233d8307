import Worksheet.Proofs.Sheet.Replaying

/-!
# Saved sheets

A sheet is saved as one line for its kind, then one for each value to which no listed
expression assigns, and then one for each listed expression.  The file gives these
lines back, and each of them is read as the expression it was written for.
-/

namespace Worksheet

/-! ### Lines -/

namespace Text

/-- Text on one line, without blanks at its ends. -/
structure Solid (text : List Char) : Prop where
  filled : text ≠ []
  blank : ∀ c ∈ text, isBlank c = true → c = ' '
  head : ∀ c ∈ text.head?, isBlank c = false
  last : ∀ c ∈ text.getLast?, isBlank c = false

namespace Solid

variable {text : List Char}

theorem of_word (filled : text ≠ []) (solid : ∀ c ∈ text, isBlank c = false) : Solid text := by
  refine ⟨filled, ?_, ?_, ?_⟩
  · intro c member blank
    rw [solid c member] at blank
    cases blank
  · intro c first
    exact solid c (List.mem_of_mem_head? first)
  · intro c last
    exact solid c (List.mem_of_mem_getLast? last)

theorem singleton {c : Char} (solid : isBlank c = false) : Solid [c] := by
  apply of_word (List.cons_ne_nil _ _)
  exact List.forall_mem_singleton.mpr solid

theorem append {left middle right : List Char} (first : Solid left) (second : Solid right)
    (blank : ∀ c ∈ middle, isBlank c = true → c = ' ') : Solid (left ++ (middle ++ right)) := by
  refine ⟨?_, ?_, ?_, ?_⟩
  · simp [first.filled]
  · intro c member
    rcases List.mem_append.mp member with before | member
    · exact first.blank c before
    · rcases List.mem_append.mp member with between | after
      · exact blank c between
      · exact second.blank c after
  · rw [List.head?_append_of_ne_nil _ first.filled]
    exact first.head
  · rw [List.getLast?_append_of_ne_nil _ (by simp [second.filled]),
      List.getLast?_append_of_ne_nil _ second.filled]
    exact second.last

theorem append_space {left right : List Char} (first : Solid left) (second : Solid right) :
    Solid (left ++ ' ' :: right) := by
  have blank : ∀ c ∈ [' '], isBlank c = true → c = ' ' := by simp
  exact first.append second blank

theorem trim_eq (solid : Solid text) : trim text = text := by
  have start : trimStart text = text := by
    cases text with
    | nil => rfl
    | cons c rest =>
        have first := solid.head c rfl
        rw [trimStart, List.dropWhile_cons_of_neg (by simp [first])]
  have ending : text.reverse.dropWhile isBlank = text.reverse := by
    cases reversed : text.reverse with
    | nil => rfl
    | cons c rest =>
        have last : isBlank c = false := by
          apply solid.last
          rw [← List.head?_reverse, reversed]
          rfl
        rw [List.dropWhile_cons_of_neg (by simp [last])]
  rw [trim, start, trimEnd, ending, List.reverse_reverse]

theorem newline_not_mem (solid : Solid text) : ∀ c ∈ text, decide (c = '\n') = false := by
  intro c member
  apply decide_eq_false
  rintro rfl
  have space := solid.blank '\n' member (by decide)
  cases space

end Solid

theorem toList_join_lines (lines : List String) :
    (String.join (lines.map (· ++ "\n"))).toList =
      (lines.map String.toList).flatMap (· ++ ['\n']) := by
  simp [String.toList_join, List.flatMap_map]

theorem split_flatMap {lines : List (List Char)}
    (uncut : ∀ line ∈ lines, ∀ c ∈ line, decide (c = '\n') = false) :
    split (· = '\n') (lines.flatMap (· ++ ['\n'])) = lines ++ [[]] := by
  induction lines with
  | nil => rfl
  | cons line rest inductionHypothesis =>
      have ⟨here, later⟩ := List.forall_mem_cons.mp uncut
      have flat : (line :: rest).flatMap (· ++ ['\n']) =
          line ++ '\n' :: rest.flatMap (· ++ ['\n']) := by simp
      simp [flat, split_append_cut, split_of_uncut here, inductionHypothesis later]

theorem filledLines_flatMap {lines : List (List Char)} (solid : ∀ line ∈ lines, Solid line) :
    filledLines (lines.flatMap (· ++ ['\n'])) = lines := by
  have trimmed : lines.map trim = lines :=
    (List.map_congr_left fun line member => (solid line member).trim_eq).trans (List.map_id' lines)
  have filled : lines.filter (fun line => !line.isEmpty) = lines := by
    apply List.filter_eq_self.mpr
    simpa using fun line member => (solid line member).filled
  have nothing : trim [] = [] := rfl
  rw [filledLines, split_flatMap fun line member => (solid line member).newline_not_mem]
  simp [trimmed, filled, nothing]

end Text

/-! ### Texts of expressions -/

namespace Expr

open Grammar Text

theorem solid_of_lexeme (negative : Bool) {lexeme : Decimal.Lexeme} (formed : lexeme.Formed) :
    Solid (Number.Written.withSign negative lexeme.chars) := by
  apply Solid.of_word
  · have whole := formed.whole_ne_nil
    cases negative <;> simp [Number.Written.withSign, Decimal.Lexeme.chars, whole]
  · intro c member
    exact (isWordChar_of_mem_withSign formed member).isBlank

theorem solid_parentheses {text : List Char} (solid : Solid text) :
    Solid ('(' :: (text ++ [')'])) := by
  have opening : Solid ['('] := Solid.singleton rfl
  have closing : Solid [')'] := Solid.singleton rfl
  exact opening.append closing solid.blank

theorem solid_binary {left right : List Char} (first : Solid left) (operator : Operator)
    (second : Solid right) : Solid (left ++ ' ' :: operator.symbol :: ' ' :: right) := by
  have symbol : Solid [operator.symbol] := by
    apply Solid.singleton
    cases operator <;> rfl
  exact first.append_space (symbol.append_space second)

theorem solid_source (value : Number) : Solid value.source.toList := by
  cases finite : value.isFinite with
  | true =>
      obtain ⟨negative, lexeme, formed, text, -⟩ := Number.source_of_isFinite finite
      rw [text]
      exact solid_of_lexeme negative formed
  | false =>
      obtain ⟨negative, lexeme, dividend, divisor, formed, text, -⟩ :=
        Number.source_of_not_isFinite finite
      have quotient := solid_binary (solid_of_lexeme negative formed) .divide
        (solid_of_lexeme false Decimal.formed_zero)
      rw [text]
      simpa [Operator.symbol, Number.Written.withSign] using solid_parentheses quotient

theorem solid_written {expr : Expr} (named : ∀ name ∈ expr.names, isName name.toList = true) :
    Solid expr.written := by
  induction expr with
  | number value => exact solid_source value
  | «variable» name =>
      have here := named name List.mem_cons_self
      apply Solid.of_word
      · intro nothing
        have same : name.toList = [] := nothing
        rw [same] at here
        cases here
      · intro c member
        exact (isWordChar_of_isNameChar (isNameChar_of_isName here c member)).isBlank
  | binary operator left right leftHypothesis rightHypothesis =>
      have enclosed {expr : Expr} (solid : Solid expr.written) (parentheses : Bool) :
          Solid (Expr.enclosed parentheses expr.written) := by
        cases parentheses with
        | true => exact solid_parentheses solid
        | false => exact solid
      apply solid_binary
      · exact enclosed (leftHypothesis fun name member =>
          named name (List.mem_append_left _ member)) _
      · exact enclosed (rightHypothesis fun name member =>
          named name (List.mem_append_right _ member)) _

theorem reads_written {dialect : Dialect} {expr : Expr} (lawful : expr.isLawful = true)
    (spellable : expr.IsSpellable dialect.kind) (uncut : dialect.separator ∉ expr.written) :
    dialect.Reads expr.written expr.spelled := by
  refine ⟨uncut, read_written lawful spellable, ?_⟩
  rw [(isLevel_written lawful spellable).namesRead, expr_level]

def assignment (name : String) (value : Number) : Expr :=
  .binary .assign (.variable name) (.number value)

end Expr

/-! ### Values in a table -/

theorem Entry.lookup_of_mem {name : String} {value : Option Number} {entries : List Entry}
    (sorted : entries.Pairwise fun left right => left.1 < right.1)
    (member : (name, value) ∈ entries) : entries.lookup name = some value := by
  induction entries with
  | nil => cases member
  | cons head rest inductionHypothesis =>
      have ⟨least, ordered⟩ := List.pairwise_cons.mp sorted
      rw [lookup_cons]
      rcases List.mem_cons.mp member with rfl | later
      · exact if_pos rfl
      · have after := least _ later
        rw [if_neg (Std.ne_of_lt after).symm]
        exact inductionHypothesis ordered later

namespace Variables

variable {table : Variables}

theorem value?_of_mem_valued {name : String} {value : Number}
    (member : (name, value) ∈ table.valued) : table.value? name = some value := by
  obtain ⟨⟨other, stored⟩, listed, same⟩ := List.mem_filterMap.mp member
  obtain ⟨number, rfl, same⟩ := Option.map_eq_some_iff.mp same
  cases same
  rw [value?, find?, Entry.lookup_of_mem table.sorted listed]
  rfl

theorem isRegistered_of_value? {name : String} {value : Number}
    (found : table.value? name = some value) : table.isRegistered name = true := by
  rw [value?] at found
  rw [isRegistered]
  cases registered : table.find? name with
  | none =>
      rw [registered] at found
      cases found
  | some stored => rfl

theorem pairwise_valued (table : Variables) :
    table.valued.Pairwise fun left right => left.1 < right.1 := by
  apply table.sorted.filterMap
  intro left right before first firstHere second secondHere
  obtain ⟨low, -, rfl⟩ := Option.map_eq_some_iff.mp firstHere
  obtain ⟨high, -, rfl⟩ := Option.map_eq_some_iff.mp secondHere
  exact before

end Variables

/-! ### The lines of a sheet -/

namespace Sheet

variable {sheet : Sheet}

/-- The values of the variables to which no listed expression assigns. -/
def impliedValues (sheet : Sheet) : List (String × Number) :=
  sheet.table.valued.filter fun (name, _) => (sheet.assignmentFor? name).isNone

/-- What is written for the sheet: the implied assignments, then the listed expressions. -/
def writtenExprs (sheet : Sheet) : List Expr :=
  (sheet.impliedValues.map fun (name, value) => .assignment name value) ++ sheet.exprs

/-- What is to be read for the sheet: the same, without numbers that have no literal. -/
def savedExprs (sheet : Sheet) : List Expr :=
  (sheet.impliedValues.map fun (name, value) =>
    .binary .assign (.variable name) value.spelled) ++ sheet.exprs

theorem Rooted.map_toList_renderings (rooted : sheet.Rooted) :
    sheet.renderings.map String.toList = sheet.exprs.map Expr.written := by
  have texts : ∀ nodes ⊆ sheet.listed,
      (nodes.map sheet.forest.render).map String.toList =
        (nodes.filterMap fun node => (sheet.forest.tree node).expr?).map Expr.written := by
    intro nodes listed
    induction nodes with
    | nil => rfl
    | cons node rest inductionHypothesis =>
        have ⟨here, later⟩ := List.cons_subset.mp listed
        obtain ⟨expr, found, -⟩ := rooted.expr?_listed node here
        rw [List.filterMap_cons, found, List.map_cons, List.map_cons,
          rooted.linked.toList_render found, inductionHypothesis later]
        rfl
  exact texts sheet.listed (List.Subset.refl _)

theorem Rooted.map_toList_lines (rooted : sheet.Rooted) :
    sheet.lines.map String.toList = sheet.writtenExprs.map Expr.written := by
  rw [lines, writtenExprs, List.map_append, List.map_append, rooted.map_toList_renderings,
    impliedAssignments, List.map_map, List.map_map]
  congr 1
  apply List.map_congr_left
  intro entry member
  simp [Expr.assignment, Expr.written, Operator.enclosesLeft, Operator.enclosesRight,
    Expr.operator?, Expr.enclosed, Operator.symbol, String.toList_append]

theorem Rooted.spellable_of_mem (rooted : sheet.Rooted) (sound : sheet.table.Sound sheet.kind)
    {expr : Expr} (member : expr ∈ sheet.writtenExprs) :
    expr.isLawful = true ∧ expr.IsSpellable sheet.kind := by
  rcases List.mem_append.mp member with implied | listed
  · obtain ⟨⟨name, value⟩, inside, rfl⟩ := List.mem_map.mp implied
    have found := Variables.value?_of_mem_valued (List.mem_filter.mp inside).1
    have registered := Variables.isRegistered_of_value? found
    refine ⟨rfl, ?_, ?_⟩
    · simpa [Expr.assignment, Expr.names] using sound.isName_registered name registered
    · simpa [Expr.assignment, Expr.constants] using sound.kind_value name value found
  · have readable := rooted.readable_of_mem_exprs listed
    exact ⟨readable.lawful, readable.isName_names, readable.kind_constants⟩

theorem Rooted.map_spelled (rooted : sheet.Rooted) :
    sheet.writtenExprs.map Expr.spelled = sheet.savedExprs := by
  rw [writtenExprs, savedExprs, List.map_append, List.map_map]
  congr 1
  rw [List.map_congr_left (g := id), List.map_id]
  intro expr member
  exact Expr.spelled_of_isFinite (rooted.readable_of_mem_exprs member).isFinite_constants

theorem Rooted.reads_lines (rooted : sheet.Rooted) (sound : sheet.table.Sound sheet.kind)
    {dialect : Dialect} (same : dialect.kind = sheet.kind)
    (uncut : ∀ line ∈ sheet.lines, dialect.separator ∉ line.toList) :
    List.Forall₂ dialect.Reads (sheet.lines.map String.toList) sheet.savedExprs := by
  have texts := rooted.map_toList_lines
  rw [← rooted.map_spelled, texts, List.forall₂_map_left_iff, List.forall₂_map_right_iff,
    List.forall₂_same]
  intro expr member
  obtain ⟨lawful, spellable⟩ := rooted.spellable_of_mem sound member
  rw [← same] at spellable
  apply Expr.reads_written lawful spellable
  have listed : expr.written ∈ sheet.lines.map String.toList := by
    rw [texts]
    exact List.mem_map_of_mem member
  obtain ⟨line, member, text⟩ := List.mem_map.mp listed
  rw [← text]
  exact uncut line member

theorem Rooted.map_read_lines (rooted : sheet.Rooted) (sound : sheet.table.Sound sheet.kind) :
    (sheet.lines.map fun line => Expr.read sheet.kind line.toList) =
      sheet.savedExprs.map .ok := by
  have texts := rooted.map_toList_lines
  have lines : (sheet.lines.map fun line => Expr.read sheet.kind line.toList) =
      (sheet.lines.map String.toList).map (Expr.read sheet.kind) := by
    rw [List.map_map]
    rfl
  rw [lines, texts, ← rooted.map_spelled, List.map_map, List.map_map]
  apply List.map_congr_left
  intro expr member
  obtain ⟨lawful, spellable⟩ := rooted.spellable_of_mem sound member
  exact Expr.read_written lawful spellable

/-! ### The file of a sheet -/

theorem typeLine_solid (kind : Kind) : Text.Solid (typeWord ++ " " ++ kind.name).toList := by
  have word {text : List Char} (filled : text ≠ []) (solid : text.any Text.isBlank = false) :
      Text.Solid text := by
    apply Text.Solid.of_word filled
    simpa using solid
  have named : Text.Solid kind.name.toList := by cases kind <;> exact word (by decide) rfl
  rw [String.toList_append, String.toList_append, List.append_assoc]
  exact Text.Solid.append_space (word (by decide) rfl) named

theorem Rooted.filledLines_fileText (rooted : sheet.Rooted)
    (sound : sheet.table.Sound sheet.kind) :
    Text.filledLines sheet.fileText.toList =
      (typeWord ++ " " ++ sheet.kind.name).toList :: sheet.lines.map String.toList := by
  have solid : ∀ line ∈ sheet.fileLines.map String.toList, Text.Solid line := by
    intro line member
    rw [fileLines, List.map_cons, rooted.map_toList_lines] at member
    rcases List.mem_cons.mp member with rfl | later
    · exact typeLine_solid sheet.kind
    · obtain ⟨expr, inside, rfl⟩ := List.mem_map.mp later
      exact Expr.solid_written (rooted.spellable_of_mem sound inside).2.1
  have text : sheet.fileText.toList =
      (sheet.fileLines.map String.toList).flatMap (· ++ ['\n']) :=
    Text.toList_join_lines sheet.fileLines
  rw [text, Text.filledLines_flatMap solid]
  rfl

theorem read_of_write {folder folder' : Folder} {name text : String}
    (written : folder.write name text.toUTF8 = .ok folder') : folder'.read name = .ok text := by
  rw [Folder.write] at written
  split at written
  next => cases written
  next =>
    cases written
    have bytes : (folder.put name text.toUTF8).bytes? name = some text.toUTF8 := by
      simp [Folder.put, Folder.bytes?]
    have valid : text.toUTF8.IsValidUTF8 := text.isValidUTF8
    have decoded : String.fromUTF8? text.toUTF8 = some text := dif_pos valid
    rw [Folder.read, bytes]
    dsimp only
    rw [decoded]

theorem read_of_save {folder folder' : Folder} {name : String} {saved : Sheet}
    (done : sheet.save folder name = .ok (saved, folder')) :
    folder'.read name = .ok sheet.fileText := by
  rw [save] at done
  split at done
  next => cases done
  next written =>
    cases done
    exact read_of_write written

end Sheet

end Worksheet
