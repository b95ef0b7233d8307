import Worksheet.Proofs.Forest.Asking
import Worksheet.Proofs.Sheet.Structure
import Worksheet.Report

/-!
# Evaluations that store

Of all evaluations only that of an assignment stores something, and then nothing but its own
value in its own target.  So other nodes can be asked for their values in any order and as
often as one likes, and a report, which asks no assignment, leaves a sheet as it is.
-/

namespace Worksheet

namespace Forest

inductive Inquiry where
  | value (node : Handle)
  | tryValue (node : Handle)

def Inquiry.node : Inquiry → Handle
  | .value node | .tryValue node => node

/-- The answer, and the forest after the evaluation. -/
def inquire (forest : Forest) : Inquiry → Except Fault (Option Number) × Forest
  | .value node => ((forest.value node).1.map some, (forest.value node).2)
  | .tryValue node => forest.tryValue node

def inquireAll (forest : Forest) : List Inquiry → List (Except Fault (Option Number)) × Forest
  | [] => ([], forest)
  | inquiry :: rest =>
      let (answer, middle) := forest.inquire inquiry
      let (answers, after) := middle.inquireAll rest
      (answer :: answers, after)

/-- What comes of asking a node: the entry of its target if it is an assignment and has been
evaluated, and nothing otherwise. -/
structure Records (forest : Forest) (node : Handle) (answer : Except Fault (Option Number))
    (after : Forest) : Prop where
  cells : after.cells = forest.cells
  stored : ∀ target source value, forest.node? node = some (.binary .assign target source) →
    answer = .ok (some value) →
      ∃ low name, target = some low ∧ forest.node? low = some (.variable name) ∧
        ∀ other, after.table.find? other =
          if other = name then some (some value) else forest.table.find? other
  untouched : (∀ target source value, forest.node? node = some (.binary .assign target source) →
    answer ≠ .ok (some value)) → after = forest

variable {forest : Forest} {node : Handle}

/-! ### Asking one node -/

theorem records_self {answer : Except Fault (Option Number)}
    (unanswered : ∀ target source value,
      forest.node? node = some (.binary .assign target source) → answer ≠ .ok (some value)) :
    forest.Records node answer forest where
  cells := rfl
  stored target source value located done := absurd done (unanswered target source value located)
  untouched _ := rfl

theorem records_set {low : Handle} {source : Option Handle} {name : String}
    (located : forest.node? node = some (.binary .assign (some low) source))
    (named : forest.node? low = some (.variable name)) (value : Number) :
    forest.Records node (.ok (some value))
      { forest with table := forest.table.set name value } where
  cells := rfl
  stored := by
    intro target source' found here done
    cases located.symm.trans here
    cases done
    exact ⟨low, name, rfl, named, fun other => Variables.find?_put forest.table name other _⟩
  untouched unanswered := absurd rfl (unanswered _ _ value located)

theorem Linked.inquire_of_plain (linked : forest.Linked) {inquiry : Inquiry}
    (plain : forest.Plain inquiry.node) : (forest.inquire inquiry).2 = forest := by
  cases inquiry with
  | value node => exact linked.value_of_plain plain
  | tryValue node => exact linked.tryValue_of_plain plain

theorem Linked.records_value (linked : forest.Linked) {target source : Option Handle}
    (located : forest.node? node = some (.binary .assign target source)) :
    forest.Records node ((forest.value node).1.map some) (forest.value node).2 := by
  rcases linked.value_of_assignment located with
    ⟨low, name, value, rfl, named, done⟩ | ⟨fault, failed⟩
  · rw [done]
    exact records_set located named value
  · rw [failed]
    exact records_self (by simp [Except.map])

/-- Whatever is asked, an assignment stores its value and nothing else is ever stored. -/
theorem Linked.records_inquire (linked : forest.Linked) (inquiry : Inquiry) :
    forest.Records inquiry.node (forest.inquire inquiry).1 (forest.inquire inquiry).2 := by
  by_cases plain : forest.Plain inquiry.node
  · rw [linked.inquire_of_plain plain]
    exact records_self fun target source _ located => absurd located (plain target source)
  · simp only [Plain, not_forall, not_not] at plain
    obtain ⟨target, source, located⟩ := plain
    cases inquiry with
    | value node => exact linked.records_value located
    | tryValue node =>
        cases valued : forest.hasValue node with
        | false =>
            rw [inquire, tryValue, valued]
            exact records_self (by simp)
        | true =>
            rw [inquire, tryValue_of_hasValue valued]
            exact linked.records_value located

/-! ### Asking many nodes -/

/-- Nodes that are no assignments answer as if each of them were the only one asked. -/
theorem Linked.inquireAll_of_plain (linked : forest.Linked) {inquiries : List Inquiry}
    (plain : ∀ inquiry ∈ inquiries, forest.Plain inquiry.node) :
    forest.inquireAll inquiries =
      (inquiries.map fun inquiry => (forest.inquire inquiry).1, forest) := by
  induction inquiries with
  | nil => rfl
  | cons inquiry rest inductionHypothesis =>
      have here := linked.inquire_of_plain (plain inquiry List.mem_cons_self)
      have later := inductionHypothesis fun other member =>
        plain other (List.mem_cons_of_mem inquiry member)
      simp [inquireAll, here, later]

/-! ### Reports -/

theorem Linked.headline_eq (linked : forest.Linked) (node : Handle) :
    (forest.headline node).2 = forest := by
  rw [headline]
  split
  next => rfl
  next other =>
    have plain : forest.Plain node := by
      intro left right located
      simp [located, Node.isAssignment, Node.operator?] at other
    have kept := linked.tryValue_of_plain plain
    split
    next asked => simpa [asked] using kept
    next asked => simpa [asked] using kept

theorem Linked.expressionLines_eq (linked : forest.Linked) (nodes : List Handle) :
    forest.expressionLines nodes =
      (nodes.flatMap fun node => (forest.headline node).1 :: forest.outline 1 node, forest) := by
  induction nodes with
  | nil => rfl
  | cons node rest inductionHypothesis =>
      simp [expressionLines, linked.headline_eq node, inductionHypothesis]

end Forest

open Forest

/-- An assignment that is asked stores its value in its target, and nothing else is ever
stored.  A report leaves the sheet as it is. -/
theorem Forest.Reachable.stored_by_inquiries {forest : Forest} (reachable : forest.Reachable) :
    (∀ inquiry : Inquiry,
      forest.Records inquiry.node (forest.inquire inquiry).1 (forest.inquire inquiry).2) ∧
    (∀ inquiries : List Inquiry, (∀ inquiry ∈ inquiries, forest.Plain inquiry.node) →
      forest.inquireAll inquiries =
        (inquiries.map fun inquiry => (forest.inquire inquiry).1, forest)) ∧
    ∀ sheet : Sheet, sheet.Attainable →
      sheet.report =
        (String.join (((sheet.listed.flatMap fun node =>
            (sheet.forest.headline node).1 :: sheet.forest.outline 1 node) ++
          sheet.table.lines).map (· ++ "\n")), sheet) := by
  refine ⟨reachable.linked.records_inquire, fun inquiries plain => ?_, fun sheet attainable => ?_⟩
  · exact reachable.linked.inquireAll_of_plain plain
  · have linked := attainable.intact.rooted.linked
    simp [Sheet.report, Sheet.table, linked.expressionLines_eq sheet.listed]

/-- An assignment stores the value of its source in place of an older one.  The group around
it and its operands store nothing, however often they are asked; and a report leaves a
variable without a value, although an assignment in the sheet would give it one. -/
theorem Forest.Reachable.stored_by_inquiries_group :
    let forest := (⟨.empty, .empty⟩ : Forest).run
      [.variable "x" none, .constant (.int 6), .constant (.int 0),
        .binary .divide (some ⟨1, 0⟩) (some ⟨2, 0⟩), .constant (.int 7),
        .assignment ⟨0, 0⟩ ⟨4, 0⟩, .table (.assign "x" (some (.int 1))), .group [⟨5, 0⟩, ⟨3, 0⟩]]
    let inquiries : List Inquiry :=
      [.tryValue ⟨6, 0⟩, .value ⟨0, 0⟩, .value ⟨3, 0⟩, .tryValue ⟨6, 0⟩, .value ⟨9, 0⟩]
    let sheet := (Sheet.new ⟨.int, ';'⟩).acts
      [.own (.enter "a = 2; 1 / 0; a + 1"), .table (.clear "a")]
    (forest.inquire (.value ⟨5, 0⟩)).1 = .ok (some (.int 7)) ∧
      (forest.inquire (.value ⟨5, 0⟩)).2.table.find? "x" = some (some (.int 7)) ∧
      (forest.inquireAll inquiries).1 =
        [.error .groupHasNoValue, .ok (some (.int 1)), .error .divisionByZero,
          .error .groupHasNoValue, .error (.removed ⟨9, 0⟩)] ∧
      (forest.inquireAll inquiries).2 = forest ∧ sheet.listed.length = 3 ∧
      sheet.table.find? "a" = some none ∧ sheet.report.2 = sheet := by
  intro forest inquiries sheet
  have reachable : forest.Reachable := ⟨_, _, rfl⟩
  have attainable : sheet.Attainable := ⟨_, _, rfl⟩
  obtain ⟨records, asked, reported⟩ := Forest.Reachable.stored_by_inquiries reachable
  have located : forest.node? ⟨5, 0⟩ = some (.binary .assign (some ⟨0, 0⟩) (some ⟨4, 0⟩)) ∧
      forest.node? ⟨0, 0⟩ = some (.variable "x") ∧
      (forest.inquire (.value ⟨5, 0⟩)).1 = .ok (some (.int 7)) := by decide +kernel
  obtain ⟨assigned, named, answered⟩ := located
  have plain : ∀ inquiry ∈ inquiries, forest.Plain inquiry.node := by
    intro inquiry member left right located
    have other : inquiries.all fun inquiry =>
        !(forest.node? inquiry.node).any Node.isAssignment := by decide +kernel
    have := List.all_eq_true.mp other inquiry member
    simp [located, Node.isAssignment, Node.operator?] at this
  rw [asked inquiries plain]
  obtain ⟨low, name, ⟨⟩, found, stored⟩ := (records (.value ⟨5, 0⟩)).stored _ _ _ assigned answered
  cases named.symm.trans found
  refine ⟨answered, by simp [stored "x"], by decide +kernel, rfl, by decide +kernel,
    by decide +kernel, ?_⟩
  rw [reported sheet attainable]

end Worksheet
