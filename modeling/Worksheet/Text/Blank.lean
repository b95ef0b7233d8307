/-!
Blank characters and the trimming they define.

A character is blank when it has the White_Space property of Unicode.  The
expression grammar itself skips only the four characters of `isLayout`.
-/

namespace Worksheet.Text

/-- The White_Space characters, as inclusive ranges of code points. -/
def blankRanges : List (Nat × Nat) :=
  [(0x0009, 0x000D), (0x0020, 0x0020), (0x0085, 0x0085), (0x00A0, 0x00A0),
   (0x1680, 0x1680), (0x2000, 0x200A), (0x2028, 0x2029), (0x202F, 0x202F),
   (0x205F, 0x205F), (0x3000, 0x3000)]

def isBlank (c : Char) : Bool :=
  blankRanges.any fun (first, last) => first ≤ c.toNat && c.toNat ≤ last

/-- The characters that may stand between the tokens of an expression. -/
def isLayout (c : Char) : Bool :=
  c = ' ' || c = '\t' || c = '\r' || c = '\n'

def trimStart (text : List Char) : List Char :=
  text.dropWhile isBlank

def trimEnd (text : List Char) : List Char :=
  (text.reverse.dropWhile isBlank).reverse

def trim (text : List Char) : List Char :=
  trimEnd (trimStart text)

/-- Nothing but blanks, or nothing at all. -/
def allBlank (text : List Char) : Bool :=
  text.all isBlank

theorem isBlank_of_isLayout {c : Char} (layout : isLayout c = true) : isBlank c = true := by
  simp only [isLayout, Bool.or_eq_true, decide_eq_true_eq] at layout
  rcases layout with ((rfl | rfl) | rfl) | rfl <;> decide

end Worksheet.Text
