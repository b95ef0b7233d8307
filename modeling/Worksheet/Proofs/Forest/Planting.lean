import Worksheet.Proofs.Expr.Acceptance
import Worksheet.Proofs.Expr.Faults
import Worksheet.Proofs.Forest.Adoption
import Worksheet.Proofs.Forest.Census
import Worksheet.Proofs.Forest.Outcome

/-!
# What a graft makes

A graft is made step by step, and where a step fails the steps before it are taken back.
What has been grafted is a tree of new nodes, as many as the expression has parts, and all
else is as before.  An expression that has been read can be grafted, unless it assigns a
quotient of integers that divides by zero.
-/

namespace Worksheet

open Grammar

theorem Tree.length_sweep_of_expr? {tree : Tree} {expr : Expr} (found : tree.expr? = some expr) :
    tree.sweep.length = expr.size := by
  induction tree generalizing expr with
  | constant id value =>
      cases found
      rfl
  | «variable» id name =>
      cases found
      rfl
  | binary id operator left right leftHypothesis rightHypothesis =>
      obtain ⟨first, second, leftFound, rightFound, rfl⟩ := expr?_binary_eq_some_iff.mp found
      rw [sweep, List.length_cons, List.length_append, leftHypothesis leftFound,
        rightHypothesis rightFound, Expr.size, Nat.add_comm second.size]
  | _ => cases found

/-- Only an assignment to a variable is ever kept from being entered, by the fault of its
source. -/
theorem Variables.exists_entered_iff {table : Variables} {expr : Expr}
    (lawful : expr.isLawful = true) :
    (∃ after, table.entered expr = .ok after) ↔
      ∀ target source, expr = .binary .assign target source →
        ∃ value, source.tryValue (table.declareAll expr.names) = .ok value := by
  by_cases plain : expr.isPlain = true
  · refine iff_of_true ⟨_, entered_of_isPlain plain table⟩ ?_
    rintro target source rfl
    cases plain
  · obtain ⟨name, source, rfl, -⟩ := Expr.assignment_of_isLawful lawful plain
    rw [entered_assignment]
    constructor
    · rintro ⟨after, entered⟩ target other same
      cases same
      cases tried : source.tryValue (table.declareAll (name :: source.names)) with
      | ok value => exact ⟨value, tried⟩
      | error fault =>
          rw [tried] at entered
          cases entered
    · intro valued
      obtain ⟨value, tried⟩ := valued _ source rfl
      have tried : source.tryValue (table.declareAll (name :: source.names)) = .ok value := tried
      rw [tried]
      exact ⟨_, rfl⟩

namespace Variables

def named (table : Variables) : Variables :=
  table.filter fun name => isName name.toList

theorem value?_named (table : Variables) (name : String) :
    table.named.value? name = if isName name.toList then table.value? name else none := by
  rw [value?, named, find?_filter, value?]
  split <;> rfl

theorem sound_named {table : Variables} {kind : Kind}
    (typed : ∀ name value, table.value? name = some value → value.kind = kind) :
    table.named.Sound kind := by
  constructor
  · intro name registered
    rw [isRegistered, named, find?_filter] at registered
    split at registered
    next formed => exact formed
    next => cases registered
  · intro name value found
    rw [value?_named] at found
    split at found
    next => exact typed name value found
    next => cases found

end Variables

namespace Forest

open Steps

variable {forest after : Forest} {expr : Expr} {node : Handle}

/-! ### Step by step -/

namespace Steps

def attempt {α : Type} (steps : Steps α) : Steps (Except Fault α) :=
  ExceptT.mk fun forest => (steps.on forest).map .ok id

/-- Makes the nodes of an expression, operands first.  Where one of them cannot be made, the
nodes that have been made for it by then are removed one after the other. -/
def graft : Expr → Steps Handle
  | .number value => make (.constant value)
  | .variable name => addVariable name none
  | .binary operator left right => do
      let first ← graft left
      match ← attempt (graft right) with
      | .error fault =>
          remove first
          throw fault
      | .ok second =>
          match ← attempt (addBinary operator (some first) (some second)) with
          | .error fault =>
              remove first
              remove second
              throw fault
          | .ok node => return node

theorem on_attempt {α β : Type} {steps : Steps α} {result : Except Fault α}
    (taken : steps.on forest = (result, after)) (next : Except Fault α → Steps β) :
    (attempt steps >>= next).on forest = (next result).on after := by
  have attempted : (attempt steps).on forest = (.ok result, after) :=
    congrArg (Prod.map Except.ok id) taken
  exact on_bind_of_ok attempted next

end Steps

theorem Linked.on_remove_of_located (linked : forest.Linked) {content : Node}
    (located : forest.node? node = some content) :
    (Steps.remove node).on forest = (.ok (), forest.removeTree node) := by
  rw [linked.on_remove, Forest.remove, node_of_located located]
  rfl

theorem Linked.on_removeBoth (linked : forest.Linked) {low high : Handle} {lower higher : Node}
    (located : forest.node? low = some lower) (located' : forest.node? high = some higher)
    (root : forest.parent? low = none) (root' : forest.parent? high = none)
    (different : low ≠ high) {α : Type} (next : Steps α) :
    (do Steps.remove low; Steps.remove high; next).on forest =
      next.on ((forest.removeTree low).removeTree high) := by
  have apart : ¬forest.Below high low := fun below =>
    different (linked.eq_of_below_of_root below root').symm
  obtain ⟨kept, -⟩ := linked.node?_removeTree_of_root root apart
  rw [on_bind_of_ok (linked.on_remove_of_located located),
    on_bind_of_ok ((linked.removeTree low).on_remove_of_located (kept.trans located'))]

/-- Step by step, an expression is grafted as it is said to be. -/
theorem Linked.on_graft (linked : forest.Linked) (expr : Expr) :
    (Steps.graft expr).on forest = forest.graft expr := by
  induction expr generalizing forest with
  | number value => rfl
  | «variable» name =>
      rw [Steps.graft, Forest.graft, on_addVariable]
      cases forest.addVariable name none <;> rfl
  | binary operator left right leftHypothesis rightHypothesis =>
      have leftTaken := leftHypothesis linked
      have first := linked.grafts left
      rw [Steps.graft, Forest.graft]
      rcases done : forest.graft left with ⟨fault | low, middle⟩
      · exact on_bind_of_error (leftTaken.trans done) _
      · rw [done] at first
        have linked' := first.grafted.linked
        have rightTaken := rightHypothesis linked'
        have second := linked'.grafts right
        obtain ⟨content, located, -⟩ := linked'.live_of_expr? first.grafted.expr?
        rw [on_bind_of_ok (leftTaken.trans done)]
        dsimp only
        -- The tree of the left operand is live whatever becomes of the right one, so its removal is
        -- never refused.
        rcases done' : middle.graft right with ⟨fault | high, last⟩
        · rw [done'] at second
          cases second with
          | refused linked'' same =>
              have kept := (same low).1.trans located
              rw [on_attempt (rightTaken.trans done'),
                on_bind_of_ok (linked''.on_remove_of_located kept)]
              rfl
        · rw [done'] at second
          have linked'' := second.grafted.linked
          obtain ⟨kept, above⟩ := second.grafted.kept low content located
          obtain ⟨content', located', -⟩ := linked''.live_of_expr? second.grafted.expr?
          have root : last.parent? low = none := above.trans first.grafted.root
          have different := first.grafted.different second.grafted
          have added := linked''.on_addBinary operator (some low) (some high)
          have ending := linked''.addBinary operator (some low) (some high)
          rw [on_attempt (rightTaken.trans done')]
          dsimp only
          rcases linked''.addBinary_cases operator root second.grafted.root different with
            ⟨node, joined, done'', -⟩ | ⟨fault, refused, done'', same⟩
          · rw [on_attempt (added.trans done''), done'']
            rfl
          · rw [done''] at ending
            have removed := ending.on_removeBoth ((same low).1.trans kept)
              ((same high).1.trans located') ((same low).2.trans root)
              ((same high).2.trans second.grafted.root) different (throw fault : Steps Handle)
            rw [on_attempt (added.trans done''), done'']
            exact removed

/-! ### What has been grafted -/

/-- The second forest has one tree more than the first, of nodes that are all new, and
nothing else is new or different. -/
structure Plants (forest : Forest) (expr : Expr) (node : Handle) (after : Forest) : Prop where
  root : after.parent? node = none
  expr? : (after.tree node).expr? = some expr
  fresh : ∀ other, after.Below other node → forest.isLive other = false
  live_iff : ∀ other, after.isLive other = true ↔
    forest.isLive other = true ∨ after.Below other node
  size : after.size = forest.size + expr.size
  kept : forest.Extends after

theorem Linked.plants_of_graft (linked : forest.Linked)
    (done : forest.graft expr = (.ok node, after)) : forest.Plants expr node after := by
  have grafts := linked.grafts expr
  rw [done] at grafts
  cases grafts with
  | made grafted known =>
    have linked' := grafted.linked
    obtain ⟨content, located, single⟩ := linked'.live_of_expr? grafted.expr?
    have fresh : ∀ other, after.Below other node → forest.isLive other = false := by
      intro other below
      by_contra live
      obtain ⟨content, found⟩ := isLive_iff.mp (eq_true_of_ne_false live)
      exact linked.not_below_of_fresh linked' grafted.kept found grafted.fresh below
    have live_iff (other : Handle) : after.isLive other = true ↔
        forest.isLive other = true ∨ after.Below other node := by
      refine ⟨known other, ?_⟩
      rintro (live | below)
      · obtain ⟨content, found⟩ := isLive_iff.mp live
        exact isLive_iff.mpr ⟨content, (grafted.kept other content found).1⟩
      · exact isLive_iff.mpr (linked'.live_of_below located below)
    refine ⟨grafted.root, grafted.expr?, fresh, live_iff, ?_, grafted.kept⟩
    have swept : (after.sweep node).length = expr.size := by
      rw [sweep_of_not_group, Tree.length_sweep_of_expr? grafted.expr?]
      rintro members group
      cases located.symm.trans group
      cases single
    have distinct : (forest.nodes ++ after.sweep node).Nodup := by
      refine List.nodup_append'.mpr
        ⟨Pool.nodup_handles forest.cells, linked'.nodup_sweep node, fun other live swept => ?_⟩
      cases (mem_nodes_iff.mp live).symm.trans (fresh other (linked'.mem_sweep.mp swept))
    have counted : after.size = (forest.nodes ++ after.sweep node).length := by
      refine linked'.size_eq_length distinct fun other => ?_
      rw [List.mem_append, mem_nodes_iff, linked'.mem_sweep, live_iff]
    rw [counted, List.length_append, swept, linked.size_eq_length_nodes]

/-- A graft succeeds just if the expression is lawful and can be entered. -/
theorem Linked.exists_graft_iff (linked : forest.Linked) (expr : Expr) :
    (∃ node, (forest.graft expr).1 = .ok node) ↔
      expr.isLawful = true ∧ ∃ table, forest.table.entered expr = .ok table := by
  constructor
  · rintro ⟨node, done⟩
    have done : forest.graft expr = (.ok node, (forest.graft expr).2) := Prod.ext done rfl
    have grafts := linked.grafts expr
    rw [done] at grafts
    have lawful := grafts.grafted.linked.isLawful_of_expr? grafts.grafted.expr?
    exact ⟨lawful, _, (linked.grafted_of_graft lawful done).2⟩
  · rintro ⟨lawful, table, entered⟩
    obtain ⟨node, after, done, -⟩ := linked.graft_of_entered lawful entered
    exact ⟨node, congrArg Prod.fst done⟩

theorem Linked.same_of_graft (linked : forest.Linked) {fault : Fault}
    (refused : forest.graft expr = (.error fault, after)) :
    forest.Same after ∧ after.size = forest.size := by
  have grafts := linked.grafts expr
  rw [refused] at grafts
  cases grafts with
  | refused linked' same => exact ⟨same, linked.size_of_same linked' same⟩

/-- A graft succeeds just if the expression is lawful and its source can be computed or lacks a
value.  It then makes the tree of the expression and nothing else; a failed one leaves all nodes
alone. -/
theorem Reachable.graft_exact (reachable : forest.Reachable) (expr : Expr) :
    (Steps.graft expr).on forest = forest.graft expr ∧
    ((∃ node, (forest.graft expr).1 = .ok node) ↔
      expr.isLawful = true ∧ ∀ target source, expr = .binary .assign target source →
        ∃ value, source.tryValue (forest.table.declareAll expr.names) = .ok value) ∧
    (∀ node after, forest.graft expr = (.ok node, after) → forest.Plants expr node after) ∧
    ∀ fault after, forest.graft expr = (.error fault, after) →
      forest.Same after ∧ after.size = forest.size := by
  have linked := reachable.linked
  refine ⟨linked.on_graft expr, ?_, fun node after => linked.plants_of_graft,
    fun fault after => linked.same_of_graft⟩
  rw [linked.exists_graft_iff]
  exact and_congr_right fun lawful => Variables.exists_entered_iff lawful

/-- An assignment below an operator is made and taken back, a division by zero is found before
anything is linked, and a source that lacks a value is grafted into the slots that are free. -/
theorem Reachable.graft_exact_quotients :
    let forest := (⟨.empty, .empty⟩ : Forest).run
      [.variable "b" (some (.int 0)), .constant (.int 5), .constant (.int 6), .remove ⟨1, 0⟩]
    let inner : Expr := .binary .add (.binary .assign (.variable "y") (.number (.int 2)))
      (.number (.int 1))
    let quotient : Expr := .binary .assign (.variable "x")
      (.binary .divide (.number (.int 1)) (.variable "b"))
    let valueless : Expr := .binary .assign (.variable "x")
      (.binary .divide (.variable "c") (.variable "b"))
    forest.Reachable ∧
      (∃ after, forest.graft inner = (.error (.misplaced .assignmentBelow), after) ∧
        forest.Same after) ∧
      (∃ after, forest.graft quotient = (.error .divisionByZero, after) ∧ forest.Same after) ∧
      ∃ after, forest.graft valueless = (.ok ⟨6, 0⟩, after) ∧
        forest.Plants valueless ⟨6, 0⟩ after ∧ after.size = 7 := by
  intro forest inner quotient valueless
  have reachable : forest.Reachable := ⟨_, _, rfl⟩
  have evaluated : (forest.graft inner).1 = .error (.misplaced .assignmentBelow) ∧
      (forest.graft quotient).1 = .error .divisionByZero ∧
      (forest.graft valueless).1 = .ok ⟨6, 0⟩ ∧ forest.size = 2 := by decide +kernel
  obtain ⟨misplaced, divided, done, size⟩ := evaluated
  obtain ⟨-, -, -, refused⟩ := graft_exact reachable inner
  obtain ⟨-, -, -, refused'⟩ := graft_exact reachable quotient
  obtain ⟨-, -, planted, -⟩ := graft_exact reachable valueless
  have plants := planted _ _ (Prod.ext done rfl)
  refine ⟨reachable, ⟨_, Prod.ext misplaced rfl, (refused _ _ (Prod.ext misplaced rfl)).1⟩,
    ⟨_, Prod.ext divided rfl, (refused' _ _ (Prod.ext divided rfl)).1⟩,
    _, Prod.ext done rfl, plants, ?_⟩
  rw [plants.size, size]
  rfl

/-! ### What has been read -/

/-- An expression that has been read can be entered, unless it assigns a quotient of integers
that divides by zero.  Of the variables only the kind of their values matters: names that
nothing can be read for may be registered as well. -/
theorem fault_of_readable {kind : Kind} {table : Variables}
    (typed : ∀ name value, table.value? name = some value → value.kind = kind)
    (readable : expr.Readable kind) {fault : Fault} (refused : table.entered expr = .error fault) :
    fault = .divisionByZero ∧ expr.isAssignment = true ∧ kind = .int := by
  by_cases plain : expr.isPlain = true
  · rw [Variables.entered_of_isPlain plain] at refused
    cases refused
  · obtain ⟨name, source, rfl, -⟩ := Expr.assignment_of_isLawful readable.lawful plain
    rw [Variables.entered_assignment] at refused
    -- The source asks for nothing but the values of names that can be read.
    have same : source.tryValue (table.declareAll (name :: source.names)) =
        source.tryValue table.named := by
      refine Expr.tryValue_congr fun other member => ?_
      rw [Variables.value?_declareAll, Variables.value?_named,
        if_pos (readable.isName_names other (List.mem_append_right _ member))]
    rw [same] at refused
    cases tried : source.tryValue table.named with
    | ok value =>
        rw [tried] at refused
        cases refused
    | error cause =>
        rw [tried] at refused
        cases refused
        obtain ⟨divided, whole⟩ := Expr.fault_of_tryValue (Variables.sound_named typed)
          (fun value member => readable.kind_constants value (List.mem_append_right _ member)) tried
        exact ⟨divided, rfl, whole⟩

/-- What has been read is grafted into every forest with values of its kind, unless it assigns a
quotient of integers that divides by zero. -/
theorem Reachable.graft_read (reachable : forest.Reachable) (dialect : Dialect)
    (table : Variables) {text : List Char}
    (read : (dialect.readSegments table [text]).1 = .ok [expr]) :
    (expr.isLawful = true ∧
      (∀ value ∈ expr.constants, value.isFinite = true ∧ value.kind = dialect.kind) ∧
      ∀ name ∈ expr.names, isName name.toList = true) ∧
    ((∀ name value, forest.table.value? name = some value → value.kind = dialect.kind) →
      ∀ fault after, forest.graft expr = (.error fault, after) →
        fault = .divisionByZero ∧ expr.isAssignment = true ∧ dialect.kind = .int) := by
  have readable := Expr.readable_of_read (Dialect.read_of_readSegments read)
  refine ⟨⟨readable.lawful, fun value member => ⟨readable.isFinite_constants value member,
    readable.kind_constants value member⟩, readable.isName_names⟩, ?_⟩
  intro typed fault after done
  obtain ⟨-, -, refused, -⟩ := reachable.linked.refused_of_graft readable.lawful done
  exact fault_of_readable typed readable refused

/-- A divisor comes to zero, in a forest where a variable is registered that cannot be read. -/
theorem Reachable.graft_read_quotient :
    let forest := (⟨.empty, .empty⟩ : Forest).run
      [.variable "b" (some (.int (-3))), .variable "c" (some (.int 4)),
        .variable "2 b" (some (.int 1))]
    let expr : Expr := .binary .assign (.variable "a")
      (.binary .divide (.binary .multiply (.number (.int (-1))) (.variable "c"))
        (.binary .subtract (.variable "b") (.number (.int (-3)))))
    forest.Reachable ∧
      (Dialect.standard.readSegments .empty ["a = -c / (b - -3)".toList]).1 = .ok [expr] ∧
      (∀ name value, forest.table.value? name = some value → value.kind = .int) ∧
      expr.isLawful = true ∧ ∃ fault after, forest.graft expr = (.error fault, after) ∧
        fault = .divisionByZero ∧ expr.isAssignment = true := by
  intro forest expr
  have reachable : forest.Reachable := ⟨_, _, rfl⟩
  have read :
      (Dialect.standard.readSegments .empty ["a = -c / (b - -3)".toList]).1 = .ok [expr] := by
    decide +kernel
  have typed : ∀ name value, forest.table.value? name = some value → value.kind = .int := by
    intro name value found
    have table : forest.table = ((Variables.empty.put "b" (some (.int (-3)))).put "c"
        (some (.int 4))).put "2 b" (some (.int 1)) := rfl
    rw [table, Variables.value?_put, Variables.value?_put, Variables.value?_put] at found
    repeat' split at found
    all_goals cases found
    all_goals rfl
  have refused : ∃ fault, (forest.graft expr).1 = .error fault :=
    ⟨.divisionByZero, by decide +kernel⟩
  obtain ⟨fault, refused⟩ := refused
  obtain ⟨⟨lawful, -, -⟩, faults⟩ := graft_read reachable .standard .empty read
  obtain ⟨divided, assigns, -⟩ := faults typed fault _ (Prod.ext refused rfl)
  exact ⟨reachable, read, typed, lawful, fault, _, Prod.ext refused rfl, divided, assigns⟩

end Forest

end Worksheet
