import Worksheet.Text.Blank

/-!
Cutting text into pieces at every character that satisfies a test, and looking
for one text inside another.

`split` never returns an empty list: text without a cut is one piece, and `n`
cuts give `n + 1` pieces, empty ones included.
-/

namespace Worksheet.Text

/-- The piece before the first cut, and the pieces after it. -/
def splitFirst (cut : Char → Bool) : List Char → List Char × List (List Char)
  | [] => ([], [])
  | c :: text =>
      let (piece, pieces) := splitFirst cut text
      if cut c then ([], piece :: pieces) else (c :: piece, pieces)

def split (cut : Char → Bool) (text : List Char) : List (List Char) :=
  (splitFirst cut text).1 :: (splitFirst cut text).2

/-- The maximal blank-free stretches of the text. -/
def words (text : List Char) : List (List Char) :=
  (split isBlank text).filter fun word => !word.isEmpty

def filledLines (text : List Char) : List (List Char) :=
  ((split (· = '\n') text).map trim).filter fun line => !line.isEmpty

/-- Whether `needle` stands somewhere in the text, without a gap. -/
def occurs (needle : List Char) : List Char → Bool
  | [] => needle.isEmpty
  | c :: text => needle.isPrefixOf (c :: text) || occurs needle text

@[simp]
theorem split_nil (cut : Char → Bool) : split cut [] = [[]] := rfl

theorem split_cons_cut {cut : Char → Bool} {c : Char} (isCut : cut c = true) (text : List Char) :
    split cut (c :: text) = [] :: split cut text := by
  simp [split, splitFirst, isCut]

theorem split_cons_keep {cut : Char → Bool} {c : Char} (keep : cut c = false)
    (text : List Char) :
    split cut (c :: text) = (c :: (splitFirst cut text).1) :: (splitFirst cut text).2 := by
  simp [split, splitFirst, keep]

theorem split_of_uncut {cut : Char → Bool} {piece : List Char}
    (uncut : ∀ c ∈ piece, cut c = false) : split cut piece = [piece] := by
  induction piece with
  | nil => rfl
  | cons c rest inductionHypothesis =>
      have tail := inductionHypothesis fun d member => uncut d (List.mem_cons_of_mem c member)
      simp only [split, List.cons.injEq] at tail
      rw [split_cons_keep (uncut c List.mem_cons_self), tail.1, tail.2]

theorem split_append_cut {cut : Char → Bool} {c : Char} (isCut : cut c = true)
    (before after : List Char) :
    split cut (before ++ c :: after) = split cut before ++ split cut after := by
  induction before with
  | nil => simp [split_cons_cut isCut]
  | cons d rest inductionHypothesis =>
      cases keep : cut d with
      | true =>
          rw [List.cons_append, split_cons_cut keep, split_cons_cut keep, inductionHypothesis,
            List.cons_append]
      | false =>
          simp only [split, List.cons_append, List.cons.injEq] at inductionHypothesis
          rw [List.cons_append, split_cons_keep keep, split_cons_keep keep,
            inductionHypothesis.1, inductionHypothesis.2]
          rfl

theorem occurs_iff {needle text : List Char} : occurs needle text = true ↔ needle <:+: text := by
  induction text with
  | nil => simp [occurs]
  | cons c rest inductionHypothesis =>
      rw [occurs, Bool.or_eq_true, List.isPrefixOf_iff_prefix, inductionHypothesis,
        List.infix_cons_iff]

end Worksheet.Text
