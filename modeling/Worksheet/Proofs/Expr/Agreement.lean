import Mathlib
import Worksheet.Expr.Basic

/-!
# Agreement

Which of two expressions is compared with the other makes no difference, also where their
numbers are floating-point numbers.  Agreement of numbers is transitive, and a number agrees
with itself unless it is a NaN.
-/

namespace Worksheet

namespace Number

open Float.Model

/-- The value without the sign of a zero; nothing stands for what is not a number. -/
def point? : UnpackedFloat → Option UnpackedFloat
  | .notANumber => none
  | .zero _ => some (.zero .positive)
  | value => some value

theorem compare_eq_iff {left right : UnpackedFloat} :
    left.compare right = some .eq ↔
      ∃ point, point? left = some point ∧ point? right = some point := by
  cases left with
  | notANumber => simp [point?, UnpackedFloat.compare]
  | infinity sign =>
      cases right with
      | infinity sign' =>
          cases sign <;> cases sign' <;> simp [point?, UnpackedFloat.compare] <;> rfl
      | _ => cases sign <;> simp [point?, UnpackedFloat.compare]
  | zero sign =>
      cases right with
      | infinity sign' | finite sign' => cases sign' <;> simp [point?, UnpackedFloat.compare]
      | _ => simp [point?, UnpackedFloat.compare]
  | finite sign mantissa exponent =>
      cases right with
      | infinity sign' => cases sign' <;> simp [point?, UnpackedFloat.compare]
      | zero sign' => cases sign <;> simp [point?, UnpackedFloat.compare]
      | notANumber => simp [point?, UnpackedFloat.compare]
      | finite sign' mantissa' exponent' =>
          have equal : (compare exponent exponent').then (compare mantissa mantissa') = .eq ↔
              exponent = exponent' ∧ mantissa = mantissa' := by simp
          have pointed : mantissa' = mantissa ∧ exponent' = exponent ↔
              exponent = exponent' ∧ mantissa = mantissa' :=
            and_comm.trans (and_congr eq_comm eq_comm)
          cases sign <;> cases sign' <;> simp [point?, UnpackedFloat.compare, equal, pointed]

theorem beq_iff {left right : UnpackedFloat} :
    left.beq right = true ↔ ∃ point, point? left = some point ∧ point? right = some point := by
  rw [← compare_eq_iff]
  exact beq_iff_eq

theorem beq_comm (left right : UnpackedFloat) : left.beq right = right.beq left := by
  rw [Bool.eq_iff_iff, beq_iff, beq_iff]
  simp only [and_comm]

theorem beq_trans {left middle right : UnpackedFloat} (first : left.beq middle = true)
    (second : middle.beq right = true) : left.beq right = true := by
  obtain ⟨point, found, here⟩ := beq_iff.mp first
  obtain ⟨point', here', found'⟩ := beq_iff.mp second
  cases here.symm.trans here'
  exact beq_iff.mpr ⟨point, found, found'⟩

theorem beq_self_iff {value : UnpackedFloat} : value.beq value = true ↔ value.isNaN = false := by
  cases value <;> simp [beq_iff, point?, UnpackedFloat.isNaN]

def isNaN : Number → Bool
  | int _ => false
  | float value => value.isNaN
  | double value => value.isNaN

theorem agrees_comm (left right : Number) : left.agrees right = right.agrees left := by
  cases left with
  | int value =>
      cases right with
      | int value' => exact Bool.beq_comm
      | _ => rfl
  | float value =>
      cases right with
      | float value' => exact beq_comm value.toModel.unpack value'.toModel.unpack
      | _ => rfl
  | double value =>
      cases right with
      | double value' => exact beq_comm value.toModel.unpack value'.toModel.unpack
      | _ => rfl

theorem agrees_trans {left middle right : Number} (first : left.agrees middle = true)
    (second : middle.agrees right = true) : left.agrees right = true := by
  cases middle with
  | int value =>
      cases left with
      | int low =>
          cases right with
          | int high => simp_all [agrees]
          | _ => cases second
      | _ => cases first
  | float value =>
      cases left with
      | float low =>
          cases right with
          | float high => exact beq_trans first second
          | _ => cases second
      | _ => cases first
  | double value =>
      cases left with
      | double low =>
          cases right with
          | double high => exact beq_trans first second
          | _ => cases second
      | _ => cases first

theorem agrees_self_iff {value : Number} : value.agrees value = true ↔ value.isNaN = false := by
  cases value with
  | int value => simp [agrees, isNaN]
  | float value => exact @beq_self_iff value.toModel.unpack
  | double value => exact @beq_self_iff value.toModel.unpack

theorem isNaN_of_isFinite {value : Number} (finite : value.isFinite = true) :
    value.isNaN = false := by
  have numeric {unpacked : UnpackedFloat} (finite : unpacked.isFinite = true) :
      unpacked.isNaN = false := by
    cases unpacked with
    | notANumber => cases finite
    | _ => rfl
  cases value with
  | int value => rfl
  | float value => exact @numeric value.toModel.unpack finite
  | double value => exact @numeric value.toModel.unpack finite

theorem agrees_self {value : Number} (finite : value.isFinite = true) :
    value.agrees value = true :=
  agrees_self_iff.mpr (isNaN_of_isFinite finite)

end Number

theorem Expr.agrees_comm (left right : Expr) : left.agrees right = right.agrees left := by
  induction left generalizing right with
  | number value =>
      cases right with
      | number value' => exact value.agrees_comm value'
      | _ => rfl
  | «variable» name =>
      cases right with
      | «variable» name' => exact Bool.beq_comm
      | _ => rfl
  | binary operator low high lowHypothesis highHypothesis =>
      cases right with
      | binary operator' low' high' =>
          rw [agrees, agrees, lowHypothesis, highHypothesis, Bool.beq_comm]
      | _ => rfl

end Worksheet
