import Worksheet.Expr.Basic
import Worksheet.Number.Read
import Worksheet.Number.Write
import Worksheet.Proofs.Decimal.Shortest
import Worksheet.Proofs.Number.Floating

/-!
# Numbers are read as they are written

A finite number is written as a literal, a lexeme with or without a minus, and the
literal is read as the number.  All other numbers are written as quotients of literals.
-/

namespace Worksheet

open Binary Decimal Number

/-! ### Signs and lexemes -/

theorem splitSign_withSign (negative : Bool) {chars : List Char}
    (digit : ∀ c ∈ chars.head?, c.isDigit = true) :
    splitSign (Written.withSign negative chars) = (negative, chars) := by
  cases negative with
  | true => rfl
  | false => exact splitSign_of_isDigit digit

theorem ofUnsigned?_chars {lexeme : Lexeme} (formed : lexeme.Formed) :
    Reading.ofUnsigned? lexeme.chars = some (.decimal lexeme.decimal) := by
  have read := Lexeme.read?_chars formed stops_nil
  rw [List.append_nil] at read
  rw [Reading.ofUnsigned?, read]

section Reading

variable {F : Type} [Floating F]

theorem readFloating?_of_signed {text digits : List Char} {negative : Bool} {reading : Reading}
    (signed : splitSign text = (negative, digits))
    (unsigned : Reading.ofUnsigned? digits = some reading) :
    readFloating? text = some (if negative then -reading.value else reading.value : F) := by
  rw [readFloating?, signed]
  dsimp only
  rw [unsigned, Option.map_some]

theorem readFloating?_withSign {lexeme : Lexeme} (formed : lexeme.Formed) (negative : Bool) :
    readFloating? (Written.withSign negative lexeme.chars) =
      some (if negative then -(Reading.decimal lexeme.decimal).value
        else (Reading.decimal lexeme.decimal).value : F) :=
  readFloating?_of_signed (splitSign_withSign negative formed.isDigit_head)
    (ofUnsigned?_chars formed)

theorem readFloating?_zero : readFloating? Layout.zero.chars = some (0.0 : F) :=
  readFloating?_withSign formed_zero false

end Reading

/-! ### Integers -/

def wholeLexeme (size : Nat) : Lexeme :=
  ⟨Nat.toDigits 10 size, none, none⟩

theorem formed_wholeLexeme (size : Nat) : (wholeLexeme size).Formed :=
  ⟨Nat.toDigits_ne_nil, fun _ => isDigit_toDigits, by simp [wholeLexeme, Lexeme.fractionDigits]⟩

theorem chars_wholeLexeme (size : Nat) : (wholeLexeme size).chars = Nat.toDigits 10 size := by
  simp [wholeLexeme, Lexeme.chars, Lexeme.fractionChars, Lexeme.exponentChars]

theorem toList_integerText (value : Int32) :
    (integerText value).toList = Written.withSign (decide (value.toInt < 0))
      (wholeLexeme value.toInt.natAbs).chars := by
  rw [chars_wholeLexeme, integerText]
  cases value.toInt with
  | ofNat size =>
      have positive : ¬Int.ofNat size < 0 := by simp
      rw [decide_eq_false positive]
      exact String.toList_ofList
  | negSucc size =>
      have negative : Int.negSucc size < 0 := Int.negSucc_lt_zero size
      rw [decide_eq_true negative]
      change ("-" ++ Nat.repr (size + 1)).toList = _
      rw [String.toList_append, Nat.repr, String.toList_ofList, String.toList_ofList]
      rfl

theorem wholeNumber?_toDigits (size : Nat) : wholeNumber? (Nat.toDigits 10 size) = some size := by
  have filled : (Nat.toDigits 10 size).isEmpty = false := by
    simp [Nat.toDigits_ne_nil]
  have all : (Nat.toDigits 10 size).all Char.isDigit = true :=
    List.all_eq_true.mpr fun _ => isDigit_toDigits
  rw [wholeNumber?, filled, all, Nat.ofDigitChars_ten_toDigits]
  rfl

theorem readInteger?_integerText (value : Int32) :
    readInteger? (integerText value).toList = some value := by
  have least := value.le_toInt
  have greatest := value.toInt_lt
  rw [toList_integerText, readInteger?,
    splitSign_withSign _ (formed_wholeLexeme _).isDigit_head, chars_wholeLexeme]
  dsimp only
  rw [wholeNumber?_toDigits]
  have signed : (if decide (value.toInt < 0) = true then -(value.toInt.natAbs : Int)
      else value.toInt.natAbs) = value.toInt := by
    simp only [decide_eq_true_eq]
    split <;> omega
  dsimp only [Option.bind_eq_bind, Option.bind_some]
  rw [signed, if_pos (by omega), Int32.ofInt_toInt]

/-! ### Floating-point numbers -/

namespace Binary

open Float.Model Float.Model.UnpackedFloat

variable {spec : Float.Model.Format}

/-- What is written for a number rounds to its magnitude, and packing that with the
sign of the number restores the number. -/
theorem packed_of_magnitude {bits : BitVec spec.numBits} {number : Scaled}
    (wide : 2 ≤ spec.exponentBits)
    (found : (Format.ofSpec spec).magnitude bits.toNat = .finite number) :
    ∃ canonical : Canonical spec number.mantissa number.exponent, Fits spec number.exponent ∧
      RoundsTo spec (layout.lexeme (shortest number)).decimal.value number.mantissa
        number.exponent ∧
      let positive :=
        UnpackedFloat.pack spec (.finite .positive number.mantissa number.exponent canonical.pos)
      ((Format.ofSpec spec).isNegative bits.toNat = true →
        UnpackedFloat.pack spec (unpack spec positive).neg = bits) ∧
      ((Format.ofSpec spec).isNegative bits.toNat = false → positive = bits) := by
  have known := unpack_eq bits
  rw [found] at known
  obtain ⟨pos, unpacked⟩ := known
  obtain ⟨canonical, fits, packed⟩ := canonical_of_unpack wide unpacked
  rw [signOf] at packed
  have rounds := roundsTo_shortest found
  rw [← value_lexeme layout (shortest number)] at rounds
  refine ⟨canonical, fits, rounds, ?_, ?_⟩
  · intro negative
    rw [unpack_pack .positive canonical fits]
    rwa [if_pos negative] at packed
  · intro positive
    rwa [positive, if_neg Bool.false_ne_true] at packed

theorem unpack_packedZero (wide : 2 ≤ spec.exponentBits) (sign : Sign) :
    unpack spec (packedZero spec sign) = .zero sign := by
  have filled : spec.exponentBits ≠ 0 := by omega
  rw [packedZero, UnpackedFloat.unpack]
  simp [unpackExponent_packComponents, unpackMantissa_packComponents, filled]

theorem packed_of_zero {bits : BitVec spec.numBits}
    (found : (Format.ofSpec spec).magnitude bits.toNat = .zero) :
    bits = packedZero spec (signOf spec bits.toNat) := by
  have parts := magnitude_eq bits
  have whole := packComponents_unpack bits
  rw [found] at parts
  rw [ofBitVec_unpackSign] at whole
  split at parts
  next => split at parts <;> cases parts
  next =>
    split at parts
    next stored =>
      split at parts
      next fraction =>
        rw [← eq_zero_iff] at stored fraction
        rw [stored, fraction] at whole
        exact whole.symm
      next => cases parts
    next => cases parts

theorem pack_unpack_of_not_isFinite {bits : BitVec spec.numBits} (valid : spec.Valid bits)
    (infinite : (unpack spec bits).isFinite = false) :
    UnpackedFloat.pack spec (unpack spec bits) = bits := by
  have whole := packComponents_unpack bits
  by_cases special : unpackExponent bits = -1#(spec.exponentBits)
  · by_cases empty : unpackMantissa bits = 0#(spec.mantissaBitsWithoutImplicit)
    · rw [UnpackedFloat.unpack, if_pos special, if_pos empty]
      rw [special, empty] at whole
      exact whole
    · rw [UnpackedFloat.unpack, if_pos special, if_neg empty]
      exact (valid.eq_packedNaN special empty).symm
  · rw [UnpackedFloat.unpack, if_neg special] at infinite
    split at infinite
    next => split at infinite <;> cases infinite
    next => cases infinite

theorem isFinite_unpack_neg {bits : BitVec spec.numBits} (wide : 2 ≤ spec.exponentBits)
    (finite : (unpack spec bits).isFinite = true) :
    (unpack spec (UnpackedFloat.pack spec (unpack spec bits).neg)).isFinite = true := by
  cases unpacked : unpack spec bits with
  | infinity sign => simp [unpacked, UnpackedFloat.isFinite] at finite
  | notANumber => simp [unpacked, UnpackedFloat.isFinite] at finite
  | zero sign =>
      rw [UnpackedFloat.neg, UnpackedFloat.pack, unpack_packedZero wide]
      rfl
  | finite sign mantissa exponent pos =>
      obtain ⟨canonical, fits, -⟩ := canonical_of_unpack wide unpacked
      rw [UnpackedFloat.neg, unpack_pack _ canonical fits]
      rfl

end Binary

theorem zero_lt_infinity_iff (sign : Float.Model.UnpackedFloat.Sign) :
    Float.Model.UnpackedFloat.lt (.zero .positive) (.infinity sign) = true ↔ sign = .positive := by
  cases sign with
  | negative => exact iff_of_false (by decide) (by simp)
  | positive => exact iff_of_true rfl rfl

/-- What gives a number that is not finite when it is divided by zero. -/
def Floating.dividend {F : Type} [Floating F] (value : F) : F :=
  if isNaN value then 0.0 else if 0.0 < value then 1.0 else -1.0

section Floating

open Float.Model.UnpackedFloat
open Floating (spec bits)

variable {F : Type} [Floating F] [LawfulFloating F] {value : F}

theorem unpack_zero : unpack (spec F) (bits (0.0 : F)) = .zero .positive :=
  (congrArg (unpack (spec F)) (LawfulFloating.bits_ofScientific_zero true 1)).trans
    (unpack_packedZero LawfulFloating.ample.1 .positive)

theorem exists_bits_one : ∃ mantissa exponent,
    ∃ canonical : Canonical (spec F) mantissa exponent, Fits (spec F) exponent ∧
      bits (1.0 : F) = pack (spec F) (.finite .positive mantissa exponent canonical.pos) := by
  have ample : Ample (spec F) := LawfulFloating.ample
  have reach : 1 < 2 ^ (spec F).exponentBias := by
    have bias := exponentBias_eq (spec F)
    have large : (2 : Int) ^ 1 ≤ 2 ^ ((spec F).exponentBits - 1) :=
      pow_le_pow_right₀ (by norm_num) (by have := ample.1; omega)
    exact Nat.one_lt_two_pow (by omega)
  obtain ⟨mantissa, exponent, canonical, fits, rounds⟩ :=
    exists_roundsTo_whole ample Nat.one_pos reach
  have scaled : RoundsTo (spec F) ((10 : Nat) * 10 ^ (-1 : Int)) mantissa exponent := by
    simpa using rounds
  exact ⟨mantissa, exponent, canonical, fits, LawfulFloating.bits_ofScientific canonical fits scaled⟩

theorem unpack_one : ∃ mantissa exponent pos,
    unpack (spec F) (bits (1.0 : F)) = .finite .positive mantissa exponent pos ∧
    unpack (spec F) (bits (-1.0 : F)) = .finite .negative mantissa exponent pos := by
  obtain ⟨mantissa, exponent, canonical, fits, one⟩ := exists_bits_one (F := F)
  have positive := unpack_pack .positive canonical fits
  refine ⟨mantissa, exponent, canonical.pos, one ▸ positive, ?_⟩
  rw [LawfulFloating.bits_neg, one, positive]
  exact unpack_pack .negative canonical fits

/-! ### Finite numbers -/

theorem isFinite_neg (value : F) (finite : Floating.isFinite value = true) :
    Floating.isFinite (-value) = true := by
  rw [LawfulFloating.isFinite_eq] at finite ⊢
  rw [LawfulFloating.bits_neg]
  exact isFinite_unpack_neg LawfulFloating.ample.1 finite

/-- A whole number is finite if the exponents of the format reach as far as it does. -/
theorem isFinite_whole {size : Nat} (bound : size < 2 ^ (spec F).exponentBias) :
    Floating.isFinite ((Reading.decimal ⟨size, 0⟩).value : F) = true := by
  rw [LawfulFloating.isFinite_eq]
  rcases size.eq_zero_or_pos with rfl | pos
  · change (unpack (spec F) (bits (OfScientific.ofScientific 0 false 0 : F))).isFinite = true
    rw [LawfulFloating.bits_ofScientific_zero, unpack_packedZero LawfulFloating.ample.1]
    rfl
  · obtain ⟨mantissa, exponent, canonical, fits, rounds⟩ :=
      exists_roundsTo_whole LawfulFloating.ample pos bound
    have scaled : RoundsTo (spec F) (size * 10 ^ (0 : Int)) mantissa exponent := by
      simpa using rounds
    rw [Reading.value, LawfulFloating.bits_ofScientific canonical fits scaled,
      unpack_pack .positive canonical fits]
    rfl

theorem isFinite_iff_written : Floating.isFinite value = true ↔
    ∃ negative lexeme, written value = .decimal negative lexeme := by
  have unpacked := unpack_eq (bits value)
  rw [LawfulFloating.isFinite_eq, written, Written.ofBits]
  cases found : (Format.ofSpec (spec F)).magnitude (bits value).toNat with
  | zero =>
      simp only [found] at unpacked
      rw [unpacked]
      exact ⟨fun _ => ⟨_, _, rfl⟩, fun _ => rfl⟩
  | finite number =>
      simp only [found] at unpacked
      obtain ⟨pos, unpacked⟩ := unpacked
      rw [unpacked]
      exact ⟨fun _ => ⟨_, _, rfl⟩, fun _ => rfl⟩
  | infinite | notANumber =>
      simp only [found] at unpacked
      simp [unpacked, Float.Model.UnpackedFloat.isFinite]

/-- What is written for a finite number is read as the number. -/
theorem value_of_written {negative : Bool} {lexeme : Lexeme}
    (found : written value = .decimal negative lexeme) :
    lexeme.Formed ∧ (if negative then -(Reading.decimal lexeme.decimal).value
      else (Reading.decimal lexeme.decimal).value) = value := by
  have wide : 2 ≤ (spec F).exponentBits := LawfulFloating.ample.1
  rw [written, Written.ofBits] at found
  split at found
  next zero =>
    cases found
    have unsigned : bits ((Reading.decimal Layout.zero.decimal).value : F) =
        packedZero (spec F) .positive := LawfulFloating.bits_ofScientific_zero true 1
    have packed := packed_of_zero zero
    rw [signOf] at packed
    refine ⟨formed_zero, LawfulFloating.eq_of_bits (Eq.trans ?_ packed.symm)⟩
    cases (Format.ofSpec (spec F)).isNegative (bits value).toNat with
    | false => exact unsigned
    | true =>
        rw [if_pos rfl, LawfulFloating.bits_neg, unsigned, unpack_packedZero wide]
        rfl
  next number whole =>
    cases found
    obtain ⟨canonical, fits, rounds, negated, kept⟩ := packed_of_magnitude wide whole
    have unsigned := LawfulFloating.bits_ofScientific canonical fits rounds
    refine ⟨formed_lexeme layout _, LawfulFloating.eq_of_bits ?_⟩
    split
    next negative =>
      rw [LawfulFloating.bits_neg, Reading.value, unsigned]
      exact negated negative
    next positive => exact unsigned.trans (kept (Bool.eq_false_iff.mpr positive))
  next => cases found
  next => cases found

theorem readFloating?_written (value : F) (finite : Floating.isFinite value = true) :
    ∃ (negative : Bool) (lexeme : Lexeme), lexeme.Formed ∧
      (written value).source.toList = Written.withSign negative lexeme.chars ∧
      readFloating? (written value).source.toList = some value := by
  obtain ⟨negative, lexeme, found⟩ := isFinite_iff_written.mp finite
  obtain ⟨formed, signed⟩ := value_of_written found
  have text : (written value).source.toList = Written.withSign negative lexeme.chars := by
    rw [found]
    exact String.toList_ofList
  refine ⟨negative, lexeme, formed, text, ?_⟩
  rw [text, readFloating?_withSign formed, signed]

/-! ### Numbers without a literal -/

theorem special_of_not_isFinite (infinite : Floating.isFinite value = false) :
    (unpack (spec F) (bits value) = .notANumber ∧ written value = .notANumber ∧
      Floating.dividend value = 0.0) ∨
    (unpack (spec F) (bits value) = .infinity .positive ∧ written value = .infinite false ∧
      Floating.dividend value = 1.0) ∨
    (unpack (spec F) (bits value) = .infinity .negative ∧ written value = .infinite true ∧
      Floating.dividend value = -1.0) := by
  have order := LawfulFloating.lt_iff 0.0 value
  have unpacked := unpack_eq (bits value)
  rw [LawfulFloating.isFinite_eq] at infinite
  rw [written, Written.ofBits, Floating.dividend, LawfulFloating.isNaN_eq]
  cases found : (Format.ofSpec (spec F)).magnitude (bits value).toNat with
  | zero =>
      simp only [found] at unpacked
      rw [unpacked] at infinite
      cases infinite
  | finite number =>
      simp only [found] at unpacked
      obtain ⟨pos, unpacked⟩ := unpacked
      rw [unpacked] at infinite
      cases infinite
  | infinite =>
      simp only [found] at unpacked
      rw [unpacked, unpack_zero, zero_lt_infinity_iff, signOf] at order
      rw [unpacked, signOf]
      cases negative : (Format.ofSpec (spec F)).isNegative (bits value).toNat with
      | false =>
          rw [negative] at order
          exact .inr (.inl ⟨rfl, rfl, if_pos (order.mpr rfl)⟩)
      | true =>
          rw [negative] at order
          have below : ¬0.0 < value := by simp [order]
          exact .inr (.inr ⟨rfl, rfl, if_neg below⟩)
  | notANumber =>
      simp only [found] at unpacked
      rw [unpacked]
      exact .inl ⟨rfl, rfl, rfl⟩

/-- A number that is not finite is a quotient by zero. -/
theorem dividend_div_zero (value : F) (infinite : Floating.isFinite value = false) :
    Floating.dividend value / 0.0 = value := by
  obtain ⟨mantissa, exponent, pos, one, minusOne⟩ := unpack_one (F := F)
  apply LawfulFloating.eq_of_bits
  rw [LawfulFloating.bits_div, unpack_zero]
  rcases special_of_not_isFinite infinite with ⟨unpacked, -, dividend⟩ | ⟨unpacked, -, dividend⟩ |
    ⟨unpacked, -, dividend⟩
  all_goals
    rw [LawfulFloating.isFinite_eq] at infinite
    rw [← pack_unpack_of_not_isFinite (LawfulFloating.valid value) infinite, unpacked, dividend]
  · rw [unpack_zero]
    rfl
  · rw [one]
    rfl
  · rw [minusOne]
    rfl

theorem isFinite_dividend (value : F) (infinite : Floating.isFinite value = false) :
    Floating.isFinite (Floating.dividend value) = true := by
  obtain ⟨mantissa, exponent, pos, one, minusOne⟩ := unpack_one (F := F)
  rw [LawfulFloating.isFinite_eq]
  rcases special_of_not_isFinite infinite with ⟨-, -, dividend⟩ | ⟨-, -, dividend⟩ |
    ⟨-, -, dividend⟩
  · rw [dividend, unpack_zero]
    rfl
  · rw [dividend, one]
    rfl
  · rw [dividend, minusOne]
    rfl

theorem readFloating?_dividend (value : F) (infinite : Floating.isFinite value = false) :
    ∃ (negative : Bool) (lexeme : Lexeme), lexeme.Formed ∧
      (written value).source.toList = '(' :: (Written.withSign negative lexeme.chars ++
        (' ' :: '/' :: ' ' :: (Layout.zero.chars ++ [')']))) ∧
      readFloating? (Written.withSign negative lexeme.chars) = some (Floating.dividend value) := by
  have formed : Lexeme.Formed ⟨['1'], some ['0'], none⟩ := formed_digit rfl
  rcases special_of_not_isFinite infinite with ⟨-, found, dividend⟩ | ⟨-, found, dividend⟩ |
    ⟨-, found, dividend⟩
  · exact ⟨false, _, formed_zero, by rw [found]; rfl, by rw [dividend]; exact readFloating?_zero⟩
  · exact ⟨false, _, formed, by rw [found]; rfl,
      by rw [dividend]; exact readFloating?_withSign formed false⟩
  · exact ⟨true, _, formed, by rw [found]; rfl,
      by rw [dividend]; exact readFloating?_withSign formed true⟩

end Floating

namespace Number

/-- A finite number is written as a literal that is read as the number. -/
theorem source_of_isFinite {number : Number} (finite : number.isFinite = true) :
    ∃ (negative : Bool) (lexeme : Lexeme), lexeme.Formed ∧
      number.source.toList = Written.withSign negative lexeme.chars ∧
      number.kind.literal? number.source.toList = some number := by
  cases number with
  | int value =>
      refine ⟨_, _, formed_wholeLexeme _, toList_integerText value, ?_⟩
      rw [source, kind, Kind.literal?, Kind.read?, readInteger?_integerText]
      rfl
  | float value =>
      obtain ⟨negative, lexeme, formed, text, read⟩ := readFloating?_written value finite
      have found := congrArg (Option.map float) read
      exact ⟨negative, lexeme, formed, text, Option.filter_eq_some_iff.mpr ⟨found, finite⟩⟩
  | double value =>
      obtain ⟨negative, lexeme, formed, text, read⟩ := readFloating?_written value finite
      have found := congrArg (Option.map double) read
      exact ⟨negative, lexeme, formed, text, Option.filter_eq_some_iff.mpr ⟨found, finite⟩⟩

theorem isFinite_negate {number : Number} (finite : number.isFinite = true) :
    number.negate.isFinite = true := by
  cases number with
  | int value => rfl
  | float value => exact isFinite_neg value finite
  | double value => exact isFinite_neg value finite

end Number

/-- The expression as which a floating-point number is written: a literal, or the quotient by
zero that gives the number. -/
def Floating.spelled {F : Type} [Floating F] (make : F → Number) (value : F) : Expr :=
  if isFinite value then .number (make value)
  else .binary .divide (.number (make (dividend value))) (.number (make 0.0))

namespace Number

def spelled : Number → Expr
  | int value => .number (int value)
  | float value => Floating.spelled float value
  | double value => Floating.spelled double value

theorem spelled_of_isFinite {number : Number} (finite : number.isFinite = true) :
    number.spelled = .number number := by
  cases number with
  | int value => rfl
  | float value => exact if_pos finite
  | double value => exact if_pos finite

/-- A number without a literal is written as its quotient. -/
theorem source_of_not_isFinite {number : Number} (infinite : number.isFinite = false) :
    ∃ (negative : Bool) (lexeme : Lexeme) (dividend divisor : Number), lexeme.Formed ∧
      number.source.toList = '(' :: (Written.withSign negative lexeme.chars ++
        (' ' :: '/' :: ' ' :: (Layout.zero.chars ++ [')']))) ∧
      number.kind.literal? (Written.withSign negative lexeme.chars) = some dividend ∧
      number.kind.literal? Layout.zero.chars = some divisor ∧
      number.spelled = .binary .divide (.number dividend) (.number divisor) := by
  have notFinite := Bool.eq_false_iff.mp infinite
  cases number with
  | int value => cases infinite
  | float value =>
      obtain ⟨negative, lexeme, formed, text, read⟩ := readFloating?_dividend value infinite
      have found := congrArg (Option.map float) read
      refine ⟨negative, lexeme, _, _, formed, text, ?_, rfl, if_neg notFinite⟩
      exact Option.filter_eq_some_iff.mpr ⟨found, isFinite_dividend value infinite⟩
  | double value =>
      obtain ⟨negative, lexeme, formed, text, read⟩ := readFloating?_dividend value infinite
      have found := congrArg (Option.map double) read
      refine ⟨negative, lexeme, _, _, formed, text, ?_, rfl, if_neg notFinite⟩
      exact Option.filter_eq_some_iff.mpr ⟨found, isFinite_dividend value infinite⟩

end Number

end Worksheet
