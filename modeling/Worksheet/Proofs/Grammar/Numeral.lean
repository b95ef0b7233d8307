import Worksheet.Proofs.Grammar.Scanning

/-!
# The longest numbers and names

The forms of numbers and names, told without a reader: digits around a point, perhaps a
power of ten, perhaps a minus in front; a letter, and letters and digits after it.  Where
an operand may begin, the scanner takes the longest start of the text that has one of
these forms.
-/

namespace Worksheet.Grammar

open Decimal Text

/-- The token has the form, and no longer start of the same text has it. -/
structure Longest (form : List Char → Prop) (token rest : List Char) : Prop where
  formed : form token
  length_le : ∀ other tail, token ++ rest = other ++ tail → form other →
    other.length ≤ token.length

theorem Longest.unique {form : List Char → Prop} {token rest other tail : List Char}
    (first : Longest form token rest) (second : Longest form other tail)
    (same : token ++ rest = other ++ tail) : token = other ∧ rest = tail :=
  List.append_inj same (le_antisymm (second.length_le token rest same.symm first.formed)
    (first.length_le other tail same second.formed))

/-! ### Names -/

theorem longest_name_iff {name rest : List Char} :
    Longest (isName · = true) name rest ↔
      isName name = true ∧ ∀ c ∈ rest.head?, isNameChar c = false := by
  constructor
  · rintro ⟨named, longest⟩
    refine ⟨named, fun c first => ?_⟩
    obtain ⟨tail, rfl⟩ := List.head?_eq_some_iff.mp first
    by_contra goesOn
    have further : isName (name ++ [c]) = true := by
      cases name with
      | nil => cases named
      | cons d text =>
          rw [isName, Bool.and_eq_true] at named
          simp [isName, named, eq_true_of_ne_false goesOn]
    have shorter := longest (name ++ [c]) tail (by simp) further
    rw [List.length_append, List.length_singleton] at shorter
    omega
  · rintro ⟨named, clear⟩
    refine ⟨named, fun other tail same otherNamed => ?_⟩
    rcases List.append_eq_append_iff.mp same with ⟨more, rfl, rfl⟩ | ⟨more, rfl, -⟩
    · cases more with
      | nil => simp
      | cons c more =>
          have inside := isNameChar_of_isName otherNamed c (by simp)
          rw [clear c rfl] at inside
          cases inside
    · simp

theorem longest_name {c : Char} (start : isNameStart c = true) (text : List Char) :
    Longest (isName · = true) (c :: text.takeWhile isNameChar) (text.dropWhile isNameChar) := by
  refine longest_name_iff.mpr ⟨by simp [isName, start], fun d first => ?_⟩
  have stop := List.head?_dropWhile_not isNameChar text
  rwa [Option.mem_def.mp first] at stop

/-! ### Numbers -/

def IsDigits (run : List Char) : Prop :=
  run ≠ [] ∧ ∀ c ∈ run, c.isDigit = true

/-- Digits around a point.  They may be missing on one side of it. -/
inductive Mantissa : List Char → Prop where
  | whole {run : List Char} : IsDigits run → Mantissa run
  | pointed {run more : List Char} : IsDigits run → (∀ c ∈ more, c.isDigit = true) →
      Mantissa (run ++ '.' :: more)
  | fraction {run : List Char} : IsDigits run → Mantissa ('.' :: run)

/-- A power of ten, or nothing. -/
inductive Power : List Char → Prop where
  | none : Power []
  | some {mark : Char} {sign run : List Char} : mark = 'e' ∨ mark = 'E' →
      sign = [] ∨ sign = ['+'] ∨ sign = ['-'] → IsDigits run → Power (mark :: (sign ++ run))

inductive Numeral : List Char → Prop where
  | mk {mantissa power : List Char} : Mantissa mantissa → Power power →
      Numeral (mantissa ++ power)

inductive SignedNumeral : List Char → Prop where
  | plain {digits : List Char} : Numeral digits → SignedNumeral digits
  | negative {digits : List Char} : Numeral digits → SignedNumeral ('-' :: digits)

theorem IsDigits.exists_cons {run : List Char} (digits : IsDigits run) :
    ∃ c others, run = c :: others ∧ c.isDigit = true := by
  obtain ⟨c, others, rfl⟩ := List.exists_cons_of_ne_nil digits.1
  exact ⟨c, others, rfl, digits.2 c List.mem_cons_self⟩

theorem isDigits_takeWhile {text : List Char} (filled : text.takeWhile Char.isDigit ≠ []) :
    IsDigits (text.takeWhile Char.isDigit) :=
  ⟨filled, fun _ member => List.mem_takeWhile_imp member⟩

theorem Numeral.startsNumber {digits : List Char} (numeral : Numeral digits)
    (rest : List Char) : startsNumber (digits ++ rest) = true := by
  obtain ⟨mantissa, -⟩ := numeral
  cases mantissa with
  | whole run | pointed run =>
      obtain ⟨c, others, rfl, digit⟩ := run.exists_cons
      simp [Grammar.startsNumber, digit]
  | fraction => rfl

/-- A character in which numbers are written. -/
def IsNumeralChar (c : Char) : Prop :=
  c.isDigit = true ∨ c ∈ ['.', 'e', 'E', '+', '-']

theorem IsNumeralChar.ne_parenthesis {c : Char} (numeral : IsNumeralChar c) :
    c ≠ '(' ∧ c ≠ ')' := by
  rcases numeral with digit | other
  · exact (isWordChar_of_isDigit digit).ne_parenthesis
  · constructor <;> rintro rfl <;> simp at other

theorem Mantissa.isNumeralChar {mantissa : List Char} (formed : Mantissa mantissa) :
    ∀ c ∈ mantissa, IsNumeralChar c := by
  intro c member
  cases formed with
  | whole digits => exact .inl (digits.2 c member)
  | pointed digits others =>
      rcases List.mem_append.mp member with inside | member
      · exact .inl (digits.2 c inside)
      · exact (List.mem_cons.mp member).symm.imp (others c) fun point => by simp [point]
  | fraction digits =>
      exact (List.mem_cons.mp member).symm.imp (digits.2 c) fun point => by simp [point]

theorem Power.isNumeralChar {power : List Char} (formed : Power power) :
    ∀ c ∈ power, IsNumeralChar c := by
  intro c member
  cases formed with
  | none => cases member
  | some marked signed digits =>
      rcases List.mem_cons.mp member with rfl | member
      · exact .inr (by rcases marked with rfl | rfl <;> simp)
      · rcases List.mem_append.mp member with inside | inside
        · exact .inr (by rcases signed with rfl | rfl | rfl <;> simp_all)
        · exact .inl (digits.2 c inside)

theorem SignedNumeral.isNumeralChar {digits : List Char} (numeral : SignedNumeral digits) :
    ∀ c ∈ digits, IsNumeralChar c := by
  have unsigned {digits : List Char} (numeral : Numeral digits) :
      ∀ c ∈ digits, IsNumeralChar c := by
    obtain ⟨mantissa, power⟩ := numeral
    intro c member
    exact (List.mem_append.mp member).elim (mantissa.isNumeralChar c) (power.isNumeralChar c)
  cases numeral with
  | plain numeral => exact unsigned numeral
  | negative numeral => exact List.forall_mem_cons.mpr ⟨.inr (by simp), unsigned numeral⟩

theorem SignedNumeral.solid {digits : List Char} (numeral : SignedNumeral digits) :
    allBlank digits = false := by
  cases numeral with
  | @plain digits numeral =>
      have starts := numeral.startsNumber []
      rw [List.append_nil] at starts
      cases digits with
      | nil => cases starts
      | cons c others =>
          simp only [Grammar.startsNumber, Bool.or_eq_true, decide_eq_true_eq] at starts
          have word : IsWordChar c := by
            rcases starts with digit | rfl
            · exact isWordChar_of_isDigit digit
            · constructor <;> decide
          simp [allBlank, word.isBlank]
  | negative => rfl

theorem mantissa_of_readDigits? {text whole rest : List Char} {fraction : Option (List Char)}
    (found : Lexeme.readDigits? text = some (whole, fraction, rest)) :
    ∃ mantissa, Mantissa mantissa ∧ text = mantissa ++ rest := by
  have run := List.takeWhile_append_dropWhile (p := Char.isDigit) (l := text)
  simp only [Lexeme.readDigits?] at found
  split at found
  next tail pointed =>
    have tailRun := List.takeWhile_append_dropWhile (p := Char.isDigit) (l := tail)
    rw [pointed] at run
    split at found
    next => cases found
    next filled =>
      cases found
      refine ⟨text.takeWhile Char.isDigit ++ '.' :: tail.takeWhile Char.isDigit, ?_, ?_⟩
      · by_cases empty : text.takeWhile Char.isDigit = []
        · rw [empty] at filled ⊢
          exact .fraction (isDigits_takeWhile (by simpa using filled))
        · exact .pointed (isDigits_takeWhile empty)
            fun _ member => List.mem_takeWhile_imp member
      · rw [List.append_assoc, List.cons_append, tailRun, run]
  next =>
    split at found
    next => cases found
    next filled =>
      cases found
      exact ⟨_, .whole (isDigits_takeWhile (by simpa using filled)), run.symm⟩

/-- A mantissa is read whole, and what is read goes further only where the text does. -/
theorem Mantissa.readDigits? {mantissa : List Char} (formed : Mantissa mantissa)
    (rest : List Char) :
    ∃ whole fraction tail, Lexeme.readDigits? (mantissa ++ rest) = some (whole, fraction, tail) ∧
      tail.length ≤ rest.length ∧
      ((∀ c ∈ rest.head?, c.isDigit = false ∧ c ≠ '.') → tail = rest) := by
  have shorter := List.length_dropWhile_le Char.isDigit rest
  have stops (clear : ∀ c ∈ rest.head?, c.isDigit = false ∧ c ≠ '.') :
      rest.dropWhile Char.isDigit = rest :=
    dropWhile_of_head fun c first => (clear c first).1
  have point (more : List Char) : ∀ c ∈ ('.' :: more).head?, c.isDigit = false := by
    intro c first
    cases first
    rfl
  cases formed with
  | whole digits =>
      -- The digits may go on in the rest, and a point with more of them may come behind.
      have filled : (mantissa ++ rest.takeWhile Char.isDigit).isEmpty = false := by
        simp [digits.1]
      simp only [Lexeme.readDigits?, List.takeWhile_append_of_pos digits.2,
        List.dropWhile_append_of_pos digits.2, filled, Bool.false_and, Bool.false_eq_true,
        if_false]
      split
      next tail pointed =>
        rw [pointed] at shorter stops
        refine ⟨_, _, _, rfl, ?_, fun clear => ?_⟩
        · exact (List.length_dropWhile_le Char.isDigit tail).trans (Nat.le_of_succ_le shorter)
        · exact absurd rfl (clear '.' (by simp [← stops clear])).2
      next => exact ⟨_, _, _, rfl, shorter, stops⟩
  | @pointed run more digits others =>
      obtain ⟨filled, all⟩ := digits
      refine ⟨run, some (more ++ rest.takeWhile Char.isDigit), rest.dropWhile Char.isDigit,
        ?_, shorter, stops⟩
      rw [Lexeme.readDigits?, List.append_assoc, List.cons_append, takeWhile_run all (point _),
        dropWhile_run all (point _)]
      simp [filled, List.takeWhile_append_of_pos others, List.dropWhile_append_of_pos others]
  | @fraction run digits =>
      obtain ⟨filled, all⟩ := digits
      refine ⟨[], some (run ++ rest.takeWhile Char.isDigit), rest.dropWhile Char.isDigit,
        ?_, shorter, stops⟩
      rw [Lexeme.readDigits?, List.cons_append, takeWhile_of_head (point _),
        dropWhile_of_head (point _)]
      simp [filled, List.takeWhile_append_of_pos all, List.dropWhile_append_of_pos all]

theorem power_readExponent (text : List Char) :
    ∃ power, Power power ∧ text = power ++ (Lexeme.readExponent text).2 := by
  cases text with
  | nil => exact ⟨[], .none, rfl⟩
  | cons mark text =>
      rw [Lexeme.readExponent]
      split
      next marked =>
        split
        next size rest found =>
          simp only [Lexeme.readPower?] at found
          split at found
          next => cases found
          next filled =>
            cases found
            obtain ⟨sign, signed, same⟩ : ∃ sign, (sign = [] ∨ sign = ['+'] ∨ sign = ['-']) ∧
                text = sign ++ (splitSign text).2 := by
              unfold splitSign
              split
              · exact ⟨['-'], by simp, rfl⟩
              · exact ⟨['+'], by simp, rfl⟩
              · exact ⟨[], by simp, rfl⟩
            refine ⟨mark :: (sign ++ (splitSign text).2.takeWhile Char.isDigit), ?_, ?_⟩
            · exact .some (by simpa using marked) signed (isDigits_takeWhile filled)
            · rw [List.cons_append, List.append_assoc, List.takeWhile_append_dropWhile, ← same]
        next => exact ⟨[], .none, rfl⟩
      next => exact ⟨[], .none, rfl⟩

theorem Power.length_readExponent_le {power : List Char} (formed : Power power)
    (rest : List Char) : (Lexeme.readExponent (power ++ rest)).2.length ≤ rest.length := by
  cases formed with
  | none => exact Lexeme.length_readExponent_le rest
  | @some mark sign run marked signed digits =>
      have split : ∃ negative, splitSign (sign ++ (run ++ rest)) = (negative, run ++ rest) := by
        rcases signed with rfl | rfl | rfl
        · obtain ⟨c, others, rfl, digit⟩ := digits.exists_cons
          refine ⟨false, splitSign_of_isDigit ?_⟩
          intro d first
          cases first
          exact digit
        · exact ⟨false, rfl⟩
        · exact ⟨true, rfl⟩
      obtain ⟨negative, split⟩ := split
      obtain ⟨filled, all⟩ := digits
      have read : ∃ size, Lexeme.readPower? (sign ++ (run ++ rest)) =
          Option.some (size, rest.dropWhile Char.isDigit) := by
        rw [Lexeme.readPower?, split]
        simp only [List.takeWhile_append_of_pos all, List.dropWhile_append_of_pos all]
        split
        next empty => exact absurd (List.append_eq_nil_iff.mp empty).1 filled
        next => exact ⟨_, rfl⟩
      obtain ⟨size, read⟩ := read
      have exponent : (mark = 'e' || mark = 'E') = true := by simpa using marked
      rw [List.cons_append, List.append_assoc, Lexeme.readExponent, if_pos exponent, read]
      exact List.length_dropWhile_le Char.isDigit rest

theorem Numeral.exists_unsigned? {token : List Char} (numeral : Numeral token)
    (rest : List Char) :
    ∃ digits tail, unsigned? (token ++ rest) = some (digits, tail) ∧
      tail.length ≤ rest.length := by
  obtain @⟨mantissa, exponent, formed, power⟩ := numeral
  obtain ⟨whole, fraction, middle, read, shorter, whenClear⟩ :=
    formed.readDigits? (exponent ++ rest)
  have found : ∃ digits, unsigned? (mantissa ++ exponent ++ rest) =
      some (digits, (Lexeme.readExponent middle).2) := by
    rw [unsigned?, List.append_assoc, Lexeme.read?, read]
    exact ⟨_, rfl⟩
  obtain ⟨digits, found⟩ := found
  refine ⟨digits, _, found, ?_⟩
  cases power with
  | none => exact (Lexeme.length_readExponent_le middle).trans shorter
  | some marked signed run =>
      rw [whenClear]
      · exact Power.length_readExponent_le (.some marked signed run) rest
      · intro c first
        cases first
        rcases marked with rfl | rfl <;> decide

theorem numeral_of_unsigned? {text token rest : List Char}
    (found : unsigned? text = some (token, rest)) : Numeral token ∧ text = token ++ rest := by
  obtain ⟨⟨lexeme, tail⟩, read, same⟩ := Option.map_eq_some_iff.mp found
  obtain ⟨⟨whole, fraction, middle⟩, digits, split⟩ := Option.map_eq_some_iff.mp read
  obtain ⟨mantissa, formed, rfl⟩ := mantissa_of_readDigits? digits
  obtain ⟨exponent, power, ending⟩ := power_readExponent middle
  cases split
  obtain ⟨rfl, rfl⟩ := Prod.mk.inj same
  have whole : mantissa ++ middle =
      (mantissa ++ exponent) ++ (Lexeme.readExponent middle).2 := by
    rw [List.append_assoc, ← ending]
  rw [whole, List.length_append, Nat.add_sub_cancel, List.take_left]
  exact ⟨⟨formed, power⟩, rfl⟩

/-- The longest number at the start of the text is taken, if there is one. -/
theorem unsigned?_eq_some_iff {text token rest : List Char} :
    unsigned? text = some (token, rest) ↔ text = token ++ rest ∧ Longest Numeral token rest := by
  have sound {token rest : List Char} (found : unsigned? text = some (token, rest)) :
      text = token ++ rest ∧ Longest Numeral token rest := by
    obtain ⟨numeral, rfl⟩ := numeral_of_unsigned? found
    refine ⟨rfl, numeral, fun other tail same further => ?_⟩
    obtain ⟨more, behind, again, shorter⟩ := further.exists_unsigned? tail
    rw [← same, found] at again
    cases again
    have length := congrArg List.length same
    rw [List.length_append, List.length_append] at length
    omega
  constructor
  · exact sound
  · rintro ⟨rfl, longest⟩
    obtain ⟨digits, tail, found, -⟩ := longest.formed.exists_unsigned? rest
    obtain ⟨same, other⟩ := sound found
    obtain ⟨rfl, rfl⟩ := longest.unique other same
    exact found

/-- A sign belongs to the number behind it. -/
theorem longest_signed_iff {token rest : List Char} :
    Longest SignedNumeral token rest ↔ Longest Numeral token rest ∨
      ∃ digits, token = '-' :: digits ∧ Longest Numeral digits rest := by
  have unsigned {digits rest text : List Char} (numeral : Numeral digits) :
      digits ++ rest ≠ '-' :: text := by
    intro same
    have starts := numeral.startsNumber rest
    rw [same] at starts
    cases starts
  constructor
  · rintro ⟨formed, longest⟩
    cases formed with
    | plain numeral =>
        exact .inl ⟨numeral, fun other tail same further =>
          longest other tail same (.plain further)⟩
    | negative numeral =>
        refine .inr ⟨_, rfl, numeral, fun other tail same further => ?_⟩
        have shorter := longest ('-' :: other) tail (by simp [same]) (.negative further)
        simpa using shorter
  · rintro (⟨numeral, longest⟩ | ⟨digits, rfl, numeral, longest⟩)
    · refine ⟨.plain numeral, fun other tail same further => ?_⟩
      cases further with
      | plain further => exact longest other tail same further
      | negative => exact absurd same (unsigned numeral)
    · refine ⟨.negative numeral, fun other tail same further => ?_⟩
      cases further with
      | plain further => exact absurd same.symm (unsigned further)
      | negative further =>
          have shorter := longest _ tail (List.cons.inj same).2 further
          simpa using shorter

end Worksheet.Grammar
