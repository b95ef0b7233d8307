import Worksheet.Proofs.Expr.Acceptance
import Worksheet.Proofs.Expr.Names
import Worksheet.Proofs.Expr.Replay
import Worksheet.Proofs.Grammar.Precedence

/-!
# Names that a segment registers

A segment is read in one pass: a name is registered when the reading comes to it, and once an
operand has failed no later one of the same phrase is looked at.  Refused operators are found
out only when all operands have been read, so they stop nothing there; to the phrase around it
a phrase with a refused operator is an operand that fails.
-/

namespace Worksheet

open Grammar

namespace Grammar

/-! ### Reading in one pass -/

abbrev Reading := Except ReadError Expr

/-- The operands of a phrase as they have been read, with the operators between them. -/
abbrev Row := Reading × List (Operator × Reading)

def failure? : Reading → Option ReadError
  | .ok _ => none
  | .error error => some error

mutual

/-- Reads an operand.  A name is registered when the reading comes to it. -/
def Primary.readOn (kind : Kind) : Primary → Variables → Reading × Variables
  | .number text, table =>
      (match kind.literal? text with
        | some value => .ok (.number value)
        | none => .error (.invalidLiteral (String.ofList text) kind), table)
  | .name text, table => (.ok (.variable (String.ofList text)), table.declare (String.ofList text))
  | .parentheses content, table =>
      let (row, table) := content.readOn kind none table
      (Expr.ofArrangement (Arrangement.ofRow row.1 row.2), table)

/-- Reads the operands of a phrase from left to right.  Once one of them has failed, its error
stands for the operands that follow, and these are not looked at. -/
def Phrase.readOn (kind : Kind) : Phrase → Option ReadError → Variables → Row × Variables
  | .last minuses _, some error, table => ((Expr.minuses kind minuses (.error error), []), table)
  | .last minuses primary, none, table =>
      let (answer, table) := primary.readOn kind table
      ((Expr.minuses kind minuses answer, []), table)
  | .more minuses _ operator rest, some error, table =>
      let (row, table) := rest.readOn kind (some error) table
      ((Expr.minuses kind minuses (.error error), (operator, row.1) :: row.2), table)
  | .more minuses primary operator rest, none, table =>
      let (answer, table) := primary.readOn kind table
      let (row, table) := rest.readOn kind (failure? answer) table
      ((Expr.minuses kind minuses answer, (operator, row.1) :: row.2), table)

end

def Phrase.exprOn (kind : Kind) (phrase : Phrase) (table : Variables) : Reading × Variables :=
  let (row, table) := phrase.readOn kind none table
  (Expr.ofArrangement (Arrangement.ofRow row.1 row.2), table)

/-! ### Errors that stand for others -/

/-- Readings side by side that are the same up to the first that is an error. -/
inductive Agree : List (Reading × Reading) → Prop where
  | nil : Agree []
  | failed (error : ReadError) (rest : List (Reading × Reading)) :
      Agree ((.error error, .error error) :: rest)
  | same (reading : Reading) {rest : List (Reading × Reading)} (agree : Agree rest) :
      Agree ((reading, reading) :: rest)

theorem Agree.of_append {first second : List (Reading × Reading)}
    (agree : Agree (first ++ second)) :
    Agree first ∧ (Agree second ∨ ∃ error, (.error error, .error error) ∈ first) := by
  induction first with
  | nil => exact ⟨.nil, .inl agree⟩
  | cons head tail inductionHypothesis =>
      cases agree with
      | failed error => exact ⟨.failed error tail, .inr ⟨error, List.mem_cons_self⟩⟩
      | same reading agree =>
          obtain ⟨before, after⟩ := inductionHypothesis agree
          refine ⟨.same reading before, after.imp_right ?_⟩
          rintro ⟨error, member⟩
          exact ⟨error, List.mem_cons_of_mem _ member⟩

theorem exists_error_of_mem_operands {arrangement : Arrangement Reading} {error : ReadError}
    (member : .error error ∈ arrangement.operands) :
    ∃ cause, Expr.ofArrangement arrangement = .error cause := by
  cases read : Expr.ofArrangement arrangement with
  | error cause => exact ⟨cause, rfl⟩
  | ok expr =>
      obtain ⟨first, rest, row, -⟩ := Expr.names_ofArrangement read
      rw [Arrangement.operands_eq_row, row] at member
      simp at member

theorem Agree.ofArrangement_eq {arrangement : Arrangement (Reading × Reading)}
    (agree : Agree arrangement.operands) :
    Expr.ofArrangement (arrangement.map Prod.fst) =
      Expr.ofArrangement (arrangement.map Prod.snd) := by
  induction arrangement with
  | operand value =>
      cases agree with
      | failed error => rfl
      | same reading => rfl
  | node operator left right leftHypothesis rightHypothesis =>
      obtain ⟨leftAgree, rightAgree | ⟨error, member⟩⟩ := agree.of_append
      · rw [Arrangement.map, Arrangement.map, Expr.ofArrangement, Expr.ofArrangement,
          leftHypothesis leftAgree, rightHypothesis rightAgree]
      · have inside : .error error ∈ (left.map Prod.snd).operands := by
          rw [Arrangement.operands_map]
          exact List.mem_map_of_mem member
        obtain ⟨cause, failed⟩ := exists_error_of_mem_operands inside
        rw [Arrangement.map, Arrangement.map, Expr.ofArrangement, Expr.ofArrangement,
          leftHypothesis leftAgree, failed]
        rfl

/-! ### One pass and two -/

/-- A row of readings side by side, of which one side is looked at. -/
def side (choose : Reading × Reading → Reading) (first : Reading × Reading)
    (rest : List (Operator × (Reading × Reading))) : Row :=
  (choose first, rest.map fun entry => (entry.1, choose entry.2))

theorem Agree.ofRow_eq {first : Reading × Reading}
    {rest : List (Operator × (Reading × Reading))} (agree : Agree (first :: rest.map Prod.snd)) :
    Expr.ofArrangement
        (Arrangement.ofRow (side Prod.fst first rest).1 (side Prod.fst first rest).2) =
      Expr.ofArrangement
        (Arrangement.ofRow (side Prod.snd first rest).1 (side Prod.snd first rest).2) := by
  have whole : Agree (Arrangement.ofRow first rest).operands := by
    rw [Arrangement.operands_eq_row, Arrangement.row_ofRow]
    exact agree
  rw [side, side]
  dsimp only
  rw [Arrangement.ofRow_map, Arrangement.ofRow_map]
  exact whole.ofArrangement_eq

theorem minuses_error (kind : Kind) (count : Nat) (error : ReadError) :
    Expr.minuses kind count (.error error) = .error error := by
  induction count with
  | zero => rfl
  | succ count inductionHypothesis =>
      rw [Expr.minuses, inductionHypothesis]
      rfl

theorem Phrase.readOn_some (kind : Kind) (phrase : Phrase) (error : ReadError) (table : Variables) :
    ∃ first rest, phrase.readOn kind (some error) table = (side Prod.fst first rest, table) ∧
      phrase.operands kind = side Prod.snd first rest := by
  cases phrase with
  | last minuses primary =>
      refine ⟨(.error error, Expr.minuses kind minuses (primary.expr kind)), [], ?_, rfl⟩
      rw [Phrase.readOn, minuses_error]
      rfl
  | more minuses primary operator rest =>
      obtain ⟨first, others, reads, means⟩ := rest.readOn_some kind error table
      refine ⟨(.error error, Expr.minuses kind minuses (primary.expr kind)),
        (operator, first) :: others, ?_, ?_⟩
      · rw [Phrase.readOn, reads, minuses_error]
        rfl
      · rw [Phrase.operands, means]
        rfl

mutual

/-- One pass comes to the expression, or the error, and registers the names, each of which has a
definition of its own. -/
theorem Primary.readOn_eq (kind : Kind) (primary : Primary) (table : Variables) :
    primary.readOn kind table = (primary.expr kind, table.declareAll (primary.names kind)) := by
  match primary with
  | .number text => rfl
  | .name text => rfl
  | .parentheses content =>
      obtain ⟨first, rest, reads, means, agree⟩ := content.readOn_none kind table
      rw [Primary.readOn, reads, Primary.expr, means, ← agree.ofRow_eq]
      rfl

theorem Phrase.readOn_none (kind : Kind) (phrase : Phrase) (table : Variables) :
    ∃ first rest, phrase.readOn kind none table =
        (side Prod.fst first rest, table.declareAll (phrase.names kind)) ∧
      phrase.operands kind = side Prod.snd first rest ∧
      Agree (first :: rest.map Prod.snd) := by
  match phrase with
  | .last minuses primary =>
      refine ⟨(Expr.minuses kind minuses (primary.expr kind),
        Expr.minuses kind minuses (primary.expr kind)), [], ?_, rfl, .same _ .nil⟩
      rw [Phrase.readOn, primary.readOn_eq kind table]
      rfl
  | .more minuses primary operator rest =>
      rw [Phrase.readOn, primary.readOn_eq kind table, Phrase.names]
      dsimp only
      cases read : primary.expr kind with
      | error error =>
          obtain ⟨first, others, reads, means⟩ :=
            rest.readOn_some kind error (table.declareAll (primary.names kind))
          refine ⟨(.error error, .error error), (operator, first) :: others, ?_, ?_,
            .failed error _⟩
          · rw [failure?, reads, minuses_error, List.append_nil]
            rfl
          · rw [Phrase.operands, means, read, minuses_error]
            rfl
      | ok expr =>
          obtain ⟨first, others, reads, means, agree⟩ :=
            rest.readOn_none kind (table.declareAll (primary.names kind))
          refine ⟨(Expr.minuses kind minuses (.ok expr), Expr.minuses kind minuses (.ok expr)),
            (operator, first) :: others, ?_, ?_, .same _ agree⟩
          · rw [failure?, reads, Variables.declareAll_append]
            rfl
          · rw [Phrase.operands, means, read]
            rfl

end

theorem Phrase.exprOn_eq (kind : Kind) (phrase : Phrase) (table : Variables) :
    phrase.exprOn kind table = (phrase.expr kind, table.declareAll (phrase.names kind)) :=
  (Primary.parentheses phrase).readOn_eq kind table

/-! ### The names before the first failure -/

def Phrase.primaries : Phrase → List Primary
  | .last _ primary => [primary]
  | .more _ primary _ rest => primary :: rest.primaries

/-- An operand fails if it is a number that the kind refuses, or parentheses whose content comes
to an error. -/
inductive Primary.Fails (kind : Kind) : Primary → Prop where
  | number {text : List Char} (refused : kind.literal? text = none) : Fails kind (.number text)
  | parentheses {content : Phrase} {error : ReadError}
      (refused : content.expr kind = .error error) : Fails kind (.parentheses content)

/-- The reading of an operand comes to the name: it is the name, or parentheses in which an
operand comes to it and none before that one fails. -/
inductive Primary.Notices (kind : Kind) : Primary → String → Prop where
  | name (text : List Char) : Notices kind (.name text) (String.ofList text)
  | parentheses {content : Phrase} {before after : List Primary} {operand : Primary}
      {name : String} (operands : content.primaries = before ++ operand :: after)
      (fine : ∀ earlier ∈ before, ¬earlier.Fails kind) (inside : Notices kind operand name) :
      Notices kind (.parentheses content) name

/-- The reading of the phrase comes to the name. -/
def Phrase.Notices (kind : Kind) (phrase : Phrase) (name : String) : Prop :=
  ∃ before operand after, phrase.primaries = before ++ operand :: after ∧
    (∀ earlier ∈ before, ¬earlier.Fails kind) ∧ operand.Notices kind name

theorem Primary.fails_iff {kind : Kind} {primary : Primary} :
    primary.Fails kind ↔ ∃ error, primary.expr kind = .error error := by
  constructor
  · intro fails
    cases fails with
    | number refused => exact ⟨_, by rw [Primary.expr, refused]⟩
    | parentheses refused => exact ⟨_, refused⟩
  · rintro ⟨error, failed⟩
    cases primary with
    | number text =>
        rw [Primary.expr] at failed
        split at failed
        next => cases failed
        next refused => exact .number refused
    | name text => cases failed
    | parentheses content => exact .parentheses failed

theorem Primary.notices_parentheses_iff {kind : Kind} {content : Phrase} {name : String} :
    (Primary.parentheses content).Notices kind name ↔ content.Notices kind name := by
  constructor
  · intro notices
    cases notices with
    | parentheses operands fine inside => exact ⟨_, _, _, operands, fine, inside⟩
  · rintro ⟨before, operand, after, operands, fine, inside⟩
    exact .parentheses operands fine inside

theorem Phrase.notices_last_iff {kind : Kind} {minuses : Nat} {primary : Primary}
    {name : String} :
    (Phrase.last minuses primary).Notices kind name ↔ primary.Notices kind name := by
  constructor
  · rintro ⟨before, operand, after, operands, -, inside⟩
    cases before with
    | nil =>
        cases operands
        exact inside
    | cons head tail => simp [Phrase.primaries] at operands
  · intro notices
    exact ⟨[], primary, [], rfl, by simp, notices⟩

/-- The reading goes on behind an operand that does not fail. -/
theorem Phrase.notices_more_iff {kind : Kind} {minuses : Nat} {primary : Primary}
    {operator : Operator} {rest : Phrase} {name : String} :
    (Phrase.more minuses primary operator rest).Notices kind name ↔
      primary.Notices kind name ∨ ¬primary.Fails kind ∧ rest.Notices kind name := by
  constructor
  · rintro ⟨before, operand, after, operands, fine, inside⟩
    cases before with
    | nil =>
        cases operands
        exact .inl inside
    | cons head tail =>
        obtain ⟨rfl, later⟩ := List.cons.inj operands
        exact .inr ⟨fine _ List.mem_cons_self, tail, operand, after, later,
          fun earlier member => fine earlier (List.mem_cons_of_mem _ member), inside⟩
  · rintro (here | ⟨whole, before, operand, after, operands, fine, inside⟩)
    · exact ⟨[], primary, rest.primaries, rfl, by simp, here⟩
    · refine ⟨primary :: before, operand, after, congrArg (primary :: ·) operands, ?_, inside⟩
      rintro earlier member
      cases member with
      | head => exact whole
      | tail _ member => exact fine earlier member

mutual

theorem Primary.mem_names_iff {kind : Kind} (primary : Primary) {name : String} :
    name ∈ primary.names kind ↔ primary.Notices kind name := by
  match primary with
  | .number text =>
      rw [Primary.names]
      exact ⟨fun member => (List.not_mem_nil member).elim, fun notices => by cases notices⟩
  | .name text =>
      rw [Primary.names, List.mem_singleton]
      constructor
      · rintro rfl
        exact .name text
      · intro notices
        cases notices
        rfl
  | .parentheses content =>
      rw [Primary.names, Primary.notices_parentheses_iff]
      exact content.mem_names_iff

/-- The names of a phrase are those to which its reading comes. -/
theorem Phrase.mem_names_iff {kind : Kind} (phrase : Phrase) {name : String} :
    name ∈ phrase.names kind ↔ phrase.Notices kind name := by
  match phrase with
  | .last minuses primary =>
      rw [Phrase.names, primary.mem_names_iff, Phrase.notices_last_iff]
  | .more minuses primary operator rest =>
      rw [Phrase.names, List.mem_append, primary.mem_names_iff, Phrase.notices_more_iff,
        Primary.fails_iff]
      refine or_congr_right ?_
      cases primary.expr kind with
      | ok expr => simp [rest.mem_names_iff]
      | error error => simp

end

end Grammar

/-! ### Segments -/

/-- Reading a segment adds the names to which a single pass over its operands comes, without values:
those before the first operand of their own phrase to fail. -/
theorem Dialect.registered_by_reading (dialect : Dialect) (table : Variables) (text : List Char) :
    let answer := dialect.readSegments table [text]
    (∀ name value, table.find? name = some value → answer.2.find? name = some value) ∧
    (∀ name value, table.find? name = none → answer.2.find? name = some value → value = none) ∧
    (¬Calculation text → answer.2 = table) ∧
    (Calculation text → ∃ phrase : Phrase, tokenize text = .ok phrase.tokens ∧
      answer = ((phrase.exprOn dialect.kind table).1.map fun expr => [expr],
        (phrase.exprOn dialect.kind table).2) ∧
      ∀ name, answer.2.isRegistered name = true ↔
        table.isRegistered name = true ∨ phrase.Notices dialect.kind name) ∧
    ∀ expr, answer.1 = .ok [expr] → ∀ name, answer.2.isRegistered name = true ↔
      table.isRegistered name = true ∨ name ∈ expr.names := by
  intro answer
  have left : answer.2 = table.declareAll (Expr.namesRead dialect.kind text) :=
    dialect.table_readSegments_singleton table text
  rw [left]
  refine ⟨fun name value found => ?_, fun name value missing found => ?_, fun underivable => ?_,
    fun calculation => ?_, fun expr read name => ?_⟩
  · rw [Variables.find?_declareAll, found]
    split <;> rfl
  · rw [Variables.find?_declareAll, missing] at found
    split at found
    next =>
      cases found
      rfl
    next => cases found
  · rw [Expr.namesRead_of_not_calculation underivable]
    rfl
  · obtain ⟨phrase, read⟩ := calculation.read
    have means : Expr.read dialect.kind text = phrase.expr dialect.kind := by
      rw [Expr.read, read]
      rfl
    have noticed : Expr.namesRead dialect.kind text = phrase.names dialect.kind := by
      rw [Expr.namesRead, read]
    refine ⟨phrase, Phrase.tokenize_of_read read, ?_, fun name => ?_⟩
    · rw [phrase.exprOn_eq, ← means, ← noticed]
      exact Prod.ext (dialect.readSegments_singleton table text) left
    · rw [Variables.isRegistered_declareAll, noticed, phrase.mem_names_iff, or_comm]
  · rw [Variables.isRegistered_declareAll,
      Expr.namesRead_of_read (Dialect.read_of_readSegments read), or_comm]

/-- An assignment as a factor stops nothing, and a number that is too large does. -/
example :
    let answer := Dialect.standard.readSegments .empty ["(x = y) * z - 99999999999 + w".toList]
    answer.2.names = ["x", "y", "z"] := by
  cbv

end Worksheet
