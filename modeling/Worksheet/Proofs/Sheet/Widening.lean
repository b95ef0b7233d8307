import Worksheet.Proofs.Expr.Widening
import Worksheet.Proofs.Sheet.Decoding
import Worksheet.Proofs.Sheet.Switching

/-!
# From integers to floating-point numbers

A sheet of integers can be turned to floating-point numbers without losing expressions.
Each line of its text is read with the new numbers as an expression of the same shape, and
nothing in such a text is refused, as only integers are ever refused in a division.  An
expression is left out only if rounding has made it equal to one before it.
-/

namespace Worksheet

/-! ### Texts that are not refused -/

namespace Sheet

variable {sheet : Sheet} {text : String} {exprs : List Expr}

/-- With numbers other than integers, a text is entered if all its pieces are read. -/
theorem Rooted.enter_of_means (rooted : sheet.Rooted) (sound : sheet.table.Sound sheet.kind)
    (fractional : sheet.kind ≠ .int)
    (means : List.Forall₂ sheet.dialect.Means (sheet.dialect.segments text) exprs) :
    ∃ grew after, sheet.enter text = (.ok grew, after) ∧
      after.Holds sheet.dialect (exprs.foldl Expr.insertNew sheet.exprs) after.table := by
  obtain ⟨read, nodes, new, ends⟩ := rooted.enterSegments_ends (sheet.dialect.segments text)
  have entering := sheet.enter_eq_enterSegments text
  generalize sheet.enterSegments (sheet.dialect.segments text) = outcome at ends entering
  cases ends with
  | @finished last entered =>
      obtain ⟨exprs', means', -, holds⟩ := rooted.holds_of_enter entering
      have unique : Relator.RightUnique sheet.dialect.Means := fun _ _ _ => Dialect.Means.unique
      cases unique.forall₂ means means'
      exact ⟨_, _, entering, holds⟩
  | @stopped done rest segment error middle after split entered refuses spared registered =>
      exfalso
      rw [split] at means
      obtain ⟨remaining, -, later⟩ := Dialect.exists_of_means entered.means means
      rw [entered.dialect] at refuses
      cases later with
      | cons here _ =>
        cases refuses with
        | unread failed => cases failed.symm.trans here
        | unmade means' refused =>
            have before := sound.replay (Dialect.readable_of_means entered.means) entered.replayed
            exact fractional
              (Variables.fault_of_entered before (Expr.readable_of_read means') refused).2

/-! ### The lines of a sheet of integers -/

theorem savedExprs_of_int (sound : sheet.table.Sound sheet.kind)
    (integers : sheet.kind = .int) : sheet.savedExprs = sheet.writtenExprs := by
  rw [savedExprs, writtenExprs]
  congr 1
  apply List.map_congr_left
  rintro ⟨name, value⟩ member
  have typed := sound.kind_value name value
    (Variables.value?_of_mem_valued (List.mem_filter.mp member).1)
  have finite : value.isFinite = true := by
    rw [integers] at typed
    cases value with
    | int value => rfl
    | _ => cases typed
  dsimp only
  rw [Number.spelled_of_isFinite finite, Expr.assignment]

theorem Rooted.exists_images (rooted : sheet.Rooted) (sound : sheet.table.Sound sheet.kind)
    (integers : sheet.kind = .int) (kind : Kind) :
    ∃ images, List.Forall₂ Expr.SameShape sheet.writtenExprs images ∧
      List.Forall₂ (fun line image => Expr.read kind line.toList = .ok image) sheet.lines
        images := by
  have written := rooted.map_read_lines sound
  rw [savedExprs_of_int sound integers, integers] at written
  generalize sheet.writtenExprs = exprs at written ⊢
  generalize sheet.lines = lines at written ⊢
  induction lines generalizing exprs with
  | nil =>
      cases List.map_eq_nil_iff.mp written.symm
      exact ⟨[], .nil, .nil⟩
  | cons line rest inductionHypothesis =>
      cases exprs with
      | nil => cases written
      | cons expr exprs =>
          obtain ⟨here, later⟩ := List.cons.inj written
          obtain ⟨image, read, same⟩ := Expr.exists_read_of_int kind here
          obtain ⟨images, shapes, reads⟩ := inductionHypothesis exprs later
          exact ⟨image :: images, .cons same shapes, .cons read reads⟩

theorem setKind_of_text_eq {kind : Kind} (different : kind ≠ sheet.kind) (empty : sheet.text = "") :
    sheet.setKind kind =
      (.ok true, { sheet.clear with dialect := { sheet.dialect with kind } }) := by
  rw [setKind, if_neg different]
  dsimp only
  rw [if_pos (by rw [empty]; rfl)]

/-- A sheet of integers takes all its expressions along to another kind of numbers. -/
theorem Rooted.setKind_of_int (rooted : sheet.Rooted) (sound : sheet.table.Sound sheet.kind)
    (integers : sheet.kind = .int)
    (foreign : Expr.isTextChar sheet.dialect.separator = false) {kind : Kind}
    (fractional : kind ≠ .int) {images : List Expr}
    (reads : List.Forall₂ (fun line image => Expr.read kind line.toList = .ok image)
      sheet.lines images) :
    ∃ after, sheet.setKind kind = (.ok true, after) ∧
      after.Holds { sheet.dialect with kind } (images.foldl Expr.insertNew []) after.table := by
  have different : kind ≠ sheet.kind := integers ▸ fractional
  have cleared := rooted.holds_clear.withDialect { sheet.dialect with kind }
  by_cases filled : sheet.lines = []
  · rw [filled] at reads
    cases reads
    have empty : sheet.text = "" := by
      rw [text, filled]
      rfl
    refine ⟨_, setKind_of_text_eq different empty, ?_⟩
    rw [cleared.table]
    exact cleared
  -- The text is cut into the lines that it was made of, since none of them holds the separator.
  · have segments : ({ sheet.dialect with kind } : Dialect).segments sheet.text =
        sheet.lines.map String.toList := rooted.segments_text sound foreign filled
    have means : List.Forall₂ ({ sheet.dialect with kind } : Dialect).Means
        (({ sheet.dialect with kind } : Dialect).segments sheet.text) images := by
      rw [segments, List.forall₂_map_left_iff]
      exact reads
    have written : sheet.text ≠ "" := by
      intro empty
      rw [empty] at means
      cases means with
      | cons blank _ => cases blank
    have initial : ({ sheet.clear with dialect := { sheet.dialect with kind } } :
        Sheet).table.Sound kind := by
      rw [cleared.table]
      exact Variables.sound_empty kind
    obtain ⟨grew, after, done, holds⟩ :=
      cleared.rooted.enter_of_means initial fractional means
    rw [cleared.exprs] at holds
    refine ⟨after, ?_, holds⟩
    rw [setKind_of_ne different written, done]
    rfl

/-- What is read with integers is read with numbers of every kind, as an expression of the same
shape.  Hence a sheet of integers can be turned to another kind without losing an expression. -/
theorem widening_from_int :
    (∀ kind text expr, Expr.read .int text = .ok expr →
      ∃ image, Expr.read kind text = .ok image ∧ expr.SameShape image) ∧
    ∀ sheet : Sheet, sheet.Undisturbed → sheet.kind = .int →
      Expr.isTextChar sheet.dialect.separator = false → ∀ kind, kind ≠ .int →
        let after := (sheet.setKind kind).2
        (sheet.setKind kind).1 = .ok true ∧ after.dialect = { sheet.dialect with kind } ∧
        ∃ images, List.Forall₂ Expr.SameShape sheet.writtenExprs images ∧
          List.Forall₂ (fun line image => Expr.read kind line.toList = .ok image) sheet.lines
            images ∧
          after.listed.map (fun node => (after.forest.tree node).expr?) =
            (images.foldl Expr.insertNew []).map some := by
  refine ⟨fun kind text expr => Expr.exists_read_of_int kind, ?_⟩
  intro sheet undisturbed integers foreign kind fractional after
  have rooted := undisturbed.safe.intact.rooted
  have sound := undisturbed.safe.sound
  obtain ⟨images, shapes, reads⟩ := rooted.exists_images sound integers kind
  obtain ⟨last, done, holds⟩ := rooted.setKind_of_int sound integers foreign fractional reads
  unfold after
  rw [done]
  refine ⟨rfl, holds.dialect, images, shapes, reads, ?_⟩
  rw [holds.rooted.map_expr?, holds.exprs]

/-- A removed assignment is implied, the operands of a division and a power are negative, and
two sums become equal as the mantissa is too short for the second of them. -/
theorem widening_from_int_rounded :
    let sheet := (new .standard).acts
      [.own (.enter (some "b = 6 - 7; a = 8 / b ^ -3; -(c + 16777216); -(c + 16777217)")),
        .own (.remove ⟨5, 0⟩)]
    let after := (sheet.setKind .float).2
    sheet.Undisturbed ∧
      sheet.lines =
        ["b = -1", "a = 8 / b ^ -3", "-1 * (c + 16777216)", "-1 * (c + 16777217)"] ∧
      (sheet.setKind .float).1 = .ok true ∧
      after.renderings = ["b = -1.0", "a = 8.0 / b ^ -3.0", "-1.0 * (c + 16777216.0)"] ∧
      (∃ images, List.Forall₂ Expr.SameShape sheet.writtenExprs images ∧
        after.listed.length + 1 = images.length) ∧
      ∃ image, Expr.read .double "-(c + 2147483647)".toList = .ok image := by
  intro sheet after
  have undisturbed : sheet.Undisturbed := ⟨_, _, by simp [Action.isDirect], rfl⟩
  have before : sheet.kind = .int ∧ Expr.isTextChar sheet.dialect.separator = false ∧
      sheet.lines =
        ["b = -1", "a = 8 / b ^ -3", "-1 * (c + 16777216)", "-1 * (c + 16777217)"] := by
    decide +kernel
  obtain ⟨integers, foreign, lines⟩ := before
  have run : after.renderings = ["b = -1.0", "a = 8.0 / b ^ -3.0", "-1.0 * (c + 16777216.0)"] ∧
      after.listed.length = 3 := by
    decide +kernel
  have whole : Expr.read .int "-(c + 2147483647)".toList =
      .ok (.binary .multiply (.number (.int (-1)))
        (.binary .add (.variable "c") (.number (.int 2147483647)))) := by
    decide +kernel
  obtain ⟨reading, switching⟩ := widening_from_int
  obtain ⟨answer, -, images, shapes, reads, -⟩ :=
    switching sheet undisturbed integers foreign .float (by decide)
  obtain ⟨image, read, -⟩ := reading .double _ _ whole
  refine ⟨undisturbed, lines, answer, run.1, ⟨images, shapes, ?_⟩, image, read⟩
  rw [run.2, ← reads.length_eq, lines]
  rfl

end Sheet

end Worksheet
