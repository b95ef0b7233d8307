import Worksheet.Proofs.Sheet.KindSafety
import Worksheet.Proofs.Sheet.RoundTrip

/-!
# The text of a sheet gives the sheet back

A sheet is written in two ways: as one text with separators in it, and as the lines of a
file after a line for its kind.  Both have the same pieces, and each piece is read as what
it was written for.
-/

namespace Worksheet

namespace Text

variable {cut : Char → Bool}

theorem split_intercalate {c : Char} (isCut : cut c = true) {pieces : List (List Char)}
    (filled : pieces ≠ []) (uncut : ∀ piece ∈ pieces, ∀ d ∈ piece, cut d = false) :
    split cut ([c].intercalate pieces) = pieces := by
  induction pieces with
  | nil => exact absurd rfl filled
  | cons piece rest inductionHypothesis =>
      have ⟨here, later⟩ := List.forall_mem_cons.mp uncut
      cases rest with
      | nil =>
          rw [List.intercalate_singleton]
          exact split_of_uncut here
      | cons next rest =>
          rw [List.intercalate_cons_cons, List.append_assoc, List.singleton_append,
            split_append_cut isCut, split_of_uncut here,
            inductionHypothesis (List.cons_ne_nil _ _) later]
          rfl

end Text

/-! ### The characters of written expressions -/

namespace Expr

open Grammar

/-- The characters in which expressions are written. -/
def isTextChar (c : Char) : Bool :=
  isNameChar c || c = ' ' || c = '.' || c = '(' || c = ')' ||
    Operator.all.any fun operator => operator.symbol = c

variable {c : Char}

theorem isTextChar_of_isNameChar (named : isNameChar c = true) : isTextChar c = true := by
  simp [isTextChar, named]

theorem isTextChar_symbol (operator : Operator) : isTextChar operator.symbol = true := by
  cases operator <;> decide

theorem isTextChar_of_mem_withSign {negative : Bool} {lexeme : Decimal.Lexeme}
    (formed : lexeme.Formed) (member : c ∈ Number.Written.withSign negative lexeme.chars) :
    isTextChar c = true := by
  rcases cases_of_mem_withSign formed member with digit | rfl | rfl | rfl
  · apply isTextChar_of_isNameChar
    simp [isNameChar, Char.isAlphanum, digit]
  all_goals decide

theorem isTextChar_of_mem_parentheses {text : List Char}
    (inner : ∀ c ∈ text, isTextChar c = true) (member : c ∈ '(' :: (text ++ [')'])) :
    isTextChar c = true := by
  simp only [List.mem_cons, List.mem_append, List.not_mem_nil, or_false] at member
  rcases member with rfl | inside | rfl
  · rfl
  · exact inner c inside
  · rfl

theorem isTextChar_of_mem_binary {left right : List Char} {operator : Operator}
    (first : ∀ c ∈ left, isTextChar c = true) (second : ∀ c ∈ right, isTextChar c = true)
    (member : c ∈ left ++ ' ' :: operator.symbol :: ' ' :: right) : isTextChar c = true := by
  simp only [List.mem_append, List.mem_cons] at member
  rcases member with before | rfl | rfl | rfl | after
  · exact first c before
  · rfl
  · exact isTextChar_symbol operator
  · rfl
  · exact second c after

theorem isTextChar_of_mem_source {value : Number} (member : c ∈ value.source.toList) :
    isTextChar c = true := by
  cases finite : value.isFinite with
  | true =>
      obtain ⟨negative, lexeme, formed, text, -⟩ := Number.source_of_isFinite finite
      rw [text] at member
      exact isTextChar_of_mem_withSign formed member
  | false =>
      obtain ⟨negative, lexeme, dividend, divisor, formed, text, -⟩ :=
        Number.source_of_not_isFinite finite
      have quotient : ∀ c ∈ Number.Written.withSign negative lexeme.chars ++
          ' ' :: Operator.divide.symbol :: ' ' ::
            Number.Written.withSign false Decimal.Layout.zero.chars, isTextChar c = true :=
        fun c => isTextChar_of_mem_binary
          (fun c => isTextChar_of_mem_withSign formed)
          (fun c => isTextChar_of_mem_withSign Decimal.formed_zero)
      rw [text] at member
      apply isTextChar_of_mem_parentheses quotient
      simpa [Operator.symbol, Number.Written.withSign] using member

theorem isTextChar_of_mem_written {expr : Expr}
    (named : ∀ name ∈ expr.names, isName name.toList = true) :
    ∀ c ∈ expr.written, isTextChar c = true := by
  induction expr with
  | number value => exact fun c => isTextChar_of_mem_source
  | «variable» name =>
      have here := named name List.mem_cons_self
      exact fun c member => isTextChar_of_isNameChar (isNameChar_of_isName here c member)
  | binary operator left right leftHypothesis rightHypothesis =>
      have enclosed {expr : Expr} (inner : ∀ c ∈ expr.written, isTextChar c = true)
          (parentheses : Bool) :
          ∀ c ∈ Expr.enclosed parentheses expr.written, isTextChar c = true := by
        cases parentheses with
        | true => exact fun c => isTextChar_of_mem_parentheses inner
        | false => exact inner
      have first := leftHypothesis fun name member => named name (List.mem_append_left _ member)
      have second := rightHypothesis fun name member => named name (List.mem_append_right _ member)
      exact fun c => isTextChar_of_mem_binary (enclosed first _) (enclosed second _)

end Expr

/-! ### Values in a table -/

namespace Variables

variable {table : Variables} {name : String} {value : Number}

end Variables

namespace Sheet

variable {sheet : Sheet}

theorem Rooted.isTextChar_of_mem_line (rooted : sheet.Rooted)
    (sound : sheet.table.Sound sheet.kind) {line : List Char}
    (member : line ∈ sheet.lines.map String.toList) : ∀ c ∈ line, Expr.isTextChar c = true := by
  rw [rooted.map_toList_lines] at member
  obtain ⟨expr, inside, rfl⟩ := List.mem_map.mp member
  exact Expr.isTextChar_of_mem_written (rooted.spellable_of_mem sound inside).2.1

/-- The separators of the text stand between its lines and nowhere else. -/
theorem Rooted.segments_text (rooted : sheet.Rooted) (sound : sheet.table.Sound sheet.kind)
    (foreign : Expr.isTextChar sheet.dialect.separator = false) (filled : sheet.lines ≠ []) :
    sheet.dialect.segments sheet.text = sheet.lines.map String.toList := by
  have joint : sheet.dialect.separator.toString.toList = [sheet.dialect.separator] :=
    String.toList_singleton _
  rw [Dialect.segments, text, String.toList_intercalate, joint]
  apply Text.split_intercalate
  · simp
  · simpa using filled
  · intro line member c inside
    apply decide_eq_false
    rintro rfl
    rw [rooted.isTextChar_of_mem_line sound member _ inside] at foreign
    cases foreign

end Sheet

end Worksheet
