import Worksheet.Proofs.Forest.Operation
import Worksheet.Proofs.Forest.Purity
import Worksheet.Proofs.Forest.Taking

/-!
# Variables under the moving of nodes

Making, moving and removing nodes changes no variable but the targets of assignments.  Those
that lose their right operands lose their values first; then the one assignment that is made
or given an operand stores what its right operand was worth before.
-/

namespace Worksheet

namespace Forest

namespace Operation

/-- Whether the operation only makes, moves or removes nodes, and names no variable. -/
def isStructural : Operation → Bool
  | .variable _ _ | .graft _ | .value _ | .tryValue _ | .table _ => false
  | _ => true

/-- The operation, with the place told that its node is moved to. -/
def resolved (forest : Forest) : Operation → Operation
  | .assignment target source => .binary .assign (some target) (some source)
  | .setParent child (some parent) =>
      match forest.node? parent with
      | some (.binary _ none _) => .setLeft parent (some child)
      | some (.binary _ _ none) => .setRight parent (some child)
      | some (.group _) => .groupPush parent child
      | _ => .setParent child (some parent)
  | operation => operation

def taken (forest : Forest) : Operation → List Handle
  | .binary _ left right => left.toList ++ right.toList
  | .group members => members
  | .setLeft _ child | .setRight _ child => child.toList
  | .setParent child _ | .groupPush _ child | .groupRemove _ child => [child]
  | .groupClear node => ((forest.node? node).map Node.children).getD []
  | .remove node => [node]
  | _ => []

end Operation

/-- An assignment to the name outlives the operation without its right operand, which was
taken away while the target was in its place. -/
def Forfeits (forest : Forest) (operation : Operation) (after : Forest) (name : String) : Prop :=
  ∃ assignment target source, forest.Assigns assignment target source name ∧
    (∃ left right, after.node? assignment = some (.binary .assign left right) ∧
      right ≠ some source) ∧
    ∃ earlier later, operation.taken forest = earlier ++ source :: later ∧ target ∉ earlier

/-- The operation stores a value under the name, or takes its value away: that of the target
which an assignment has afterwards.  What is stored is what the right operand was worth before. -/
inductive Stores (forest : Forest) :
    Operation → Option Handle → Forest → String → Option Number → Prop where
  | made {left right : Option Handle} {assignment : Handle} {after : Forest} {name : String}
      {value : Option Number} (target : after.target? assignment = some name)
      (valued : (forest.assignedValue right).1 = .ok value) :
      Stores forest (.binary .assign left right) (some assignment) after name value
  | right {assignment : Handle} {child : Option Handle} {after : Forest} {name : String}
      {value : Option Number} (target : after.target? assignment = some name)
      (valued : (forest.assignedValue child).1 = .ok value) :
      Stores forest (.setRight assignment child) none after name value
  | left {assignment : Handle} {child source : Option Handle} {after : Forest} {name : String}
      {value : Number} (target : after.target? assignment = some name)
      (held : forest.right assignment = .ok source)
      (valued : (forest.assignedValue source).1 = .ok (some value)) :
      Stores forest (.setLeft assignment child) none after name (some value)

/-- The variables are as before, but for those that forfeit their values and the one that is
given a value or loses it after that. -/
def Accounted (forest : Forest) (operation : Operation) (answer : Option Handle)
    (after : Forest) : Prop :=
  ∃ cleared : Variables, forest.table.Cleared cleared (forest.Forfeits operation after) ∧
    (∀ name value, forest.Stores operation answer after name value →
      after.table = cleared.put name value) ∧
    ((∀ name value, ¬forest.Stores operation answer after name value) → after.table = cleared)

variable {forest middle after : Forest} {operation : Operation} {answer : Option Handle}

/-! ### Assembling the account -/

theorem Forfeits.congr {name : String} (nodes : ∀ node, after.node? node = middle.node? node) :
    forest.Forfeits operation after name ↔ forest.Forfeits operation middle name := by
  simp only [Forfeits, nodes]

theorem Spends.forfeited (spends : forest.Spends (operation.taken forest) after) :
    forest.table.Cleared after.table (forest.Forfeits operation after) := by
  refine spends.cleared.congr fun name => ?_
  constructor
  · rintro ⟨assignment, target, source, assigns, earlier, later, split, stays⟩
    have member : source ∈ operation.taken forest := by simp [split]
    obtain ⟨left, found⟩ := spends.lost assignment _ source assigns.1 member
    exact ⟨assignment, target, source, assigns, ⟨left, none, found, by simp⟩, earlier, later,
      split, stays⟩
  · rintro ⟨assignment, target, source, assigns, -, order⟩
    exact ⟨assignment, target, source, assigns, order⟩

theorem forfeited_self (forest : Forest) (operation : Operation) :
    forest.table.Cleared forest.table (forest.Forfeits operation forest) := by
  refine .of_none ?_
  rintro name ⟨assignment, target, source, assigns, ⟨left, right, found, lost⟩, -⟩
  cases assigns.1.symm.trans found
  exact lost rfl

theorem accounted_of_silent
    (cleared : forest.table.Cleared after.table (forest.Forfeits operation after))
    (silent : ∀ name value, ¬forest.Stores operation answer after name value) :
    forest.Accounted operation answer after :=
  ⟨after.table, cleared, fun name value stores => absurd stores (silent name value), fun _ => rfl⟩

theorem Spends.accounted (spends : forest.Spends (operation.taken forest) after)
    (silent : ∀ name value, ¬forest.Stores operation answer after name value) :
    forest.Accounted operation answer after :=
  accounted_of_silent spends.forfeited silent

theorem target?_store (forest : Forest) (assignment other : Handle) (value : Option Number) :
    (forest.store assignment value).target? other = forest.target? other := by
  simp only [target?, name?, node?_store]

theorem accounted_of_store {assignment : Handle} {value : Option Number}
    (cleared : forest.table.Cleared middle.table (forest.Forfeits operation middle))
    (stores : ∀ name stored,
      forest.Stores operation answer (middle.store assignment value) name stored ↔
        (middle.store assignment value).target? assignment = some name ∧ stored = value) :
    forest.Accounted operation answer (middle.store assignment value) := by
  simp only [target?_store] at stores
  refine ⟨middle.table, cleared.congr fun name => ?_, fun name stored done => ?_, fun silent => ?_⟩
  · exact (Forfeits.congr fun node => node?_store middle assignment node value).symm
  · obtain ⟨target, rfl⟩ := (stores name stored).mp done
    rw [store, target]
  · cases target : middle.target? assignment with
    | none => rw [store, target]
    | some name => exact absurd ((stores name value).mpr ⟨target, rfl⟩) (silent name value)

/-! ### Changing operands -/

section Operands

variable {binary : Handle} {child : Option Handle} {side : Side}

theorem Linked.forfeited_link (linked : forest.Linked)
    (moved : operation.taken forest = child.toList) :
    forest.table.Cleared (forest.link binary side child).table
      (forest.Forfeits operation (forest.link binary side child)) := by
  cases child with
  | none =>
      apply Spends.forfeited
      rw [moved]
      exact spends_nil (table_place forest binary side none)
  | some node =>
      rw [Forest.link]
      split
      next => exact forfeited_self forest operation
      next elsewhere =>
        apply Spends.forfeited
        rw [moved]
        have detached := ((taken_nil forest).detach linked node).spends
        refine detached.place fun right left source located => ?_
        -- The operand that stands there already is not moved.
        rintro member
        obtain rfl := List.mem_singleton.mp member
        subst right
        refine elsewhere ⟨?_, by rw [operand?, located]; rfl⟩
        exact linked.parent?_of_child source binary ⟨_, located, by simp [Node.children]⟩

/-- What an assignment assigns to is told by what it was before a link is changed. -/
theorem Linked.operator_of_target?_link (linked : forest.Linked) {operator : Operator}
    (found : forest.operator binary = .ok operator) {name : String}
    (target : (forest.link binary side child).target? binary = some name) : operator = .assign := by
  obtain ⟨content, located, isBinary⟩ := operator_eq_ok_iff.mp found
  obtain ⟨_, _, there, -⟩ := target?_eq_some_iff.mp target
  obtain ⟨_, _, before⟩ :=
    exists_assignment_of_bare (linked.bare_node?_link binary binary side child) there
  cases located.symm.trans before
  exact (Option.some.inj isBinary).symm

theorem Linked.accounted_setLeft (linked : forest.Linked)
    (done : forest.setLeft binary child = .ok after) :
    forest.Accounted (.setLeft binary child) none after := by
  obtain ⟨operator, found, done⟩ := bind_eq_ok_iff.mp done
  have cleared : forest.table.Cleared (forest.link binary .left child).table
      (forest.Forfeits (.setLeft binary child) (forest.link binary .left child)) :=
    linked.forfeited_link rfl
  split at done
  next assign =>
    obtain ⟨_, target, done⟩ := bind_eq_ok_iff.mp done
    obtain ⟨_, checked, done⟩ := bind_eq_ok_iff.mp done
    obtain ⟨right, held, done⟩ := bind_eq_ok_iff.mp done
    obtain ⟨outcome, valued⟩ := linked.assignedValue_of_plain fun node same =>
      linked.plain_of_right (held.trans (congrArg _ same))
    rw [valued] at done
    obtain ⟨value, rfl, done⟩ := bind_eq_ok_iff.mp done
    have valued : (forest.assignedValue right).1 = .ok value := congrArg Prod.fst valued
    cases value with
    | none =>
        cases done
        refine accounted_of_silent cleared ?_
        rintro name _ (_ | _ | ⟨-, held', valued'⟩)
        cases held.symm.trans held'
        cases valued.symm.trans valued'
    | some value =>
        cases done
        refine accounted_of_store cleared fun name stored => ?_
        constructor
        · rintro (_ | _ | ⟨target, held', valued'⟩)
          cases held.symm.trans held'
          cases valued.symm.trans valued'
          exact ⟨target, rfl⟩
        · rintro ⟨target, rfl⟩
          exact .left target held valued
  next other =>
    obtain ⟨_, checked, done⟩ := bind_eq_ok_iff.mp done
    cases done
    refine accounted_of_silent cleared ?_
    rintro name _ (_ | _ | ⟨target, -, -⟩)
    exact other (linked.operator_of_target?_link found target)

theorem Linked.accounted_setRight (linked : forest.Linked)
    (done : forest.setRight binary child = .ok after) :
    forest.Accounted (.setRight binary child) none after := by
  obtain ⟨operator, found, done⟩ := bind_eq_ok_iff.mp done
  have cleared : forest.table.Cleared (forest.link binary .right child).table
      (forest.Forfeits (.setRight binary child) (forest.link binary .right child)) :=
    linked.forfeited_link rfl
  split at done
  next assign =>
    obtain ⟨_, checked, done⟩ := bind_eq_ok_iff.mp done
    obtain ⟨outcome, valued⟩ := linked.assignedValue_of_plain fun node same =>
      linked.plain_of_checkChild found (checkOperand_eq_ok_iff.mp checked node same)
    rw [valued] at done
    obtain ⟨value, rfl, done⟩ := bind_eq_ok_iff.mp done
    have valued : (forest.assignedValue child).1 = .ok value := congrArg Prod.fst valued
    cases done
    refine accounted_of_store cleared fun name stored => ?_
    constructor
    · rintro (_ | ⟨target, valued'⟩ | _)
      cases valued.symm.trans valued'
      exact ⟨target, rfl⟩
    · rintro ⟨target, rfl⟩
      exact .right target valued
  next other =>
    obtain ⟨_, checked, done⟩ := bind_eq_ok_iff.mp done
    cases done
    refine accounted_of_silent cleared ?_
    rintro name _ (_ | ⟨target, -⟩ | _)
    exact other (linked.operator_of_target?_link found target)

end Operands

/-! ### Making binary nodes -/

theorem link_of_vacant {binary child : Handle} {side : Side}
    (vacant : forest.operand? binary side = none) :
    forest.link binary side (some child) =
      (forest.detach child).place binary side (some child) := by
  rw [Forest.link, if_neg]
  rintro ⟨-, there⟩
  cases vacant.symm.trans there

theorem Taken.place_left {nodes : List Handle} (taken : forest.Taken nodes middle)
    {operator : Operator} {binary : Handle}
    (located : forest.node? binary = some (.binary operator none none))
    (stays : middle.node? binary = some (.binary operator none none)) (child : Option Handle) :
    forest.Taken nodes (middle.place binary .left child) ∧
      (middle.place binary .left child).node? binary = some (.binary operator child none) := by
  have placed : (middle.place binary .left child).node? binary =
      some (.binary operator child none) := by
    rw [node?_place, if_pos rfl, stays]
    rfl
  refine ⟨taken.hang binary (table_place middle binary .left child) ?_ ?_ ?_, placed⟩
  · exact fun other => bare_node?_place middle binary other .left child
  · intro other different
    rw [node?_place, if_neg different]
  · intro left right assignment
    cases located.symm.trans assignment
    exact ⟨rfl, child, placed⟩

theorem Linked.spends_linkBoth (linked : forest.Linked) {operator : Operator} {binary : Handle}
    {left : Option Handle} (located : forest.node? binary = some (.binary operator none none))
    (fits : ∀ node, left = some node → forest.Fits operator binary .left node)
    (right : Option Handle) :
    forest.Spends (left.toList ++ right.toList)
      ((forest.link binary .left left).link binary .right right) := by
  have firstLinked := linked.link located rfl fits
  have first : forest.Taken left.toList (forest.link binary .left left) ∧
      (forest.link binary .left left).node? binary = some (.binary operator left none) := by
    cases left with
    | none => exact (taken_nil forest).place_left located located none
    | some node =>
        rw [link_of_vacant (by rw [operand?, located]; rfl)]
        refine ((taken_nil forest).detach linked node).place_left located ?_ (some node)
        rw [linked.node?_detach, located]
        rfl
  obtain ⟨first, located'⟩ := first
  have displaced : Side.right = .right → ∀ before source,
      forest.node? binary = some (.binary .assign before (some source)) →
      source ∉ left.toList ++ right.toList := by
    intro _ before source assignment
    cases located.symm.trans assignment
  cases right with
  | none =>
      rw [Option.toList_none, List.append_nil] at displaced ⊢
      change forest.Spends _ (Forest.place _ binary .right none)
      exact first.spends.place displaced
  | some node =>
      rw [link_of_vacant (by rw [operand?, located']; rfl)]
      exact (first.detach firstLinked node).spends.place displaced

/-- Preparing stores nothing, if the operand that is evaluated is no assignment. -/
theorem Linked.table_of_prepare (linked : forest.Linked) {operator : Operator}
    {left right : Option Handle} {value : Option Number} {table : Variables}
    (prepared : forest.prepare operator left right = (.ok value, { forest with table }))
    (plain : ∀ node, right = some node → forest.Plain node) :
    table = forest.table ∧ (operator = .assign → (forest.assignedValue right).1 = .ok value) := by
  obtain ⟨outcome, valued⟩ := linked.assignedValue_of_plain plain
  rw [prepare] at prepared
  split at prepared
  next =>
    split at prepared
    next => cases congrArg Prod.fst prepared
    next =>
      rw [valued] at prepared ⊢
      exact ⟨(congrArg (·.2.table) prepared).symm, fun _ => congrArg Prod.fst prepared⟩
  next other =>
    exact ⟨(congrArg (·.2.table) prepared).symm, fun assign => absurd assign other⟩

theorem Linked.accounted_linkBoth (linked : forest.Linked) {operator : Operator} {binary : Handle}
    {left right : Option Handle} {value : Option Number}
    (new : (forest.allocate (.binary operator none none)).1 = binary)
    (checked : (forest.allocate (.binary operator none none)).2.checkOperand binary left = .ok ())
    (target : operator = .assign → ∀ node, left = some node →
      ∃ name, forest.node? node = some (.variable name))
    (valued : operator = .assign → (forest.assignedValue right).1 = .ok value) :
    forest.Accounted (.binary operator left right) (some binary)
      ((forest.allocate (.binary operator none none)).2.linkBoth operator binary left right
        value) := by
  subst new
  have leaf : (Node.binary operator none none).children = [] := rfl
  have located := node?_allocate_self linked.formed (.binary operator none none)
  have fits := fun node same => linked.fits_left_allocate
    (checkOperand_eq_ok_iff.mp checked node same) fun assign => target assign node same
  have spends := linked.spends_of_allocate leaf
    ((linked.allocate leaf).spends_linkBoth located fits right)
  have cleared : forest.table.Cleared _ (forest.Forfeits (.binary operator left right) _) :=
    spends.forfeited
  rw [Forest.linkBoth]
  split
  next assign =>
    subst assign
    refine accounted_of_store cleared fun name stored => ?_
    constructor
    · rintro (⟨target, valued'⟩ | _ | _)
      cases (valued rfl).symm.trans valued'
      exact ⟨target, rfl⟩
    · rintro ⟨target, rfl⟩
      exact .made target (valued rfl)
  next other =>
    refine accounted_of_silent cleared ?_
    rintro name stored (_ | _ | _)
    exact other rfl

theorem Linked.accounted_addBinary (linked : forest.Linked) {operator : Operator}
    {left right : Option Handle} {node : Handle}
    (done : forest.addBinary operator left right = (.ok node, after)) :
    forest.Accounted (.binary operator left right) (some node) after := by
  have adds := forest.addsBinary operator left right
  rw [done] at adds
  cases adds with
  | @made value table node allocated apart prepared new leftChecked rightChecked =>
      cases new
      have plain : ∀ node, right = some node → forest.Plain node := fun node same =>
        (linked.withTable table).plain_of_checkChild_allocate
          (checkOperand_eq_ok_iff.mp rightChecked node same)
      obtain ⟨rfl, valued⟩ := linked.table_of_prepare prepared plain
      refine linked.accounted_linkBoth rfl leftChecked (fun assign first same => ?_) valued
      subst same
      exact target_of_prepare (congrArg Prod.fst prepared) assign

/-! ### Changing groups -/

section Groups

variable {group child : Handle}

theorem Linked.accounted_addGroup (linked : forest.Linked) {members : List Handle}
    (done : forest.addGroup members = (.ok group, after)) :
    forest.Accounted (.group members) (some group) after := by
  have leaf : (Node.group []).children = [] := rfl
  have made := linked.allocate leaf
  have located := node?_allocate_self linked.formed (.group [])
  rw [Forest.addGroup, addEmptyGroup] at done
  dsimp only at done
  split at done
  next => cases done
  next checked =>
    cases done
    refine Spends.accounted ?_ (by rintro name value (_ | _ | _))
    refine linked.spends_of_allocate leaf (Taken.spends ?_)
    refine (taken_nil _).adoptAll made located fun member listed => ?_
    obtain ⟨upper, lower, -, found, allowed, -⟩ :=
      made.checkChild_eq_ok_iff.mp (forM_eq_ok_iff.mp checked member listed)
    exact ⟨lower, found, (Node.misplacement?_eq_none_iff.mp allowed).1⟩

theorem Linked.accounted_groupPush (linked : forest.Linked)
    (done : forest.groupPush group child = .ok after) :
    forest.Accounted (.groupPush group child) none after := by
  obtain ⟨members, found, done⟩ := bind_eq_ok_iff.mp done
  obtain ⟨_, checked, done⟩ := bind_eq_ok_iff.mp done
  cases done
  refine Spends.accounted ?_ (by rintro name value (_ | _ | _))
  exact ((taken_nil forest).adopt linked (members_eq_ok_iff.mp found) child).spends

theorem Linked.accounted_groupRemove (linked : forest.Linked) {answer : Bool × Forest}
    (done : forest.groupRemove group child = .ok answer) :
    forest.Accounted (.groupRemove group child) none answer.2 := by
  obtain ⟨members, found, done⟩ := bind_eq_ok_iff.mp done
  obtain ⟨parent, -, done⟩ := bind_eq_ok_iff.mp done
  refine accounted_of_silent ?_ (by rintro name value (_ | _ | _))
  split at done
  next =>
    cases done
    exact ((taken_nil forest).detach linked child).spends.forfeited
  next =>
    cases done
    exact forfeited_self forest _

theorem Linked.accounted_groupClear (linked : forest.Linked)
    (done : forest.groupClear group = .ok after) :
    forest.Accounted (.groupClear group) none after := by
  obtain ⟨members, found, done⟩ := bind_eq_ok_iff.mp done
  have located := members_eq_ok_iff.mp found
  cases done
  refine Spends.accounted ?_ (by rintro name value (_ | _ | _))
  rw [Operation.taken, Forest.detachMembers, located]
  exact ((taken_nil forest).detachAll linked members).spends

end Groups

/-! ### Moving and removing nodes -/

theorem Linked.accounted_setParent (linked : forest.Linked) {child : Handle}
    {parent : Option Handle} (done : forest.setParent child parent = .ok after) :
    forest.Accounted ((Operation.setParent child parent).resolved forest) none after := by
  obtain ⟨content, -, done⟩ := bind_eq_ok_iff.mp done
  dsimp only at done
  split at done
  next =>
    obtain ⟨_, refused, -⟩ := bind_eq_ok_iff.mp done
    cases refused
  next =>
    cases parent with
    | none =>
        cases done
        refine Spends.accounted ?_ (by rintro name value (_ | _ | _))
        exact ((taken_nil forest).detach linked child).spends
    | some parent =>
        obtain ⟨_, -, done⟩ := bind_eq_ok_iff.mp done
        obtain ⟨upper, found, done⟩ := bind_eq_ok_iff.mp done
        rw [Operation.resolved, node_eq_ok_iff.mp found]
        cases upper with
        | group members => exact linked.accounted_groupPush done
        | binary operator left right =>
            have held : forest.operands parent = .ok (left, right) := by
              rw [operands, node_eq_ok_iff.mp found]
            rw [if_neg (by simp [Node.isGroup]), held] at done
            cases left with
            | none => exact linked.accounted_setLeft done
            | some first =>
                cases right with
                | none => exact linked.accounted_setRight done
                | some second => cases done
        | _ =>
            rw [if_neg (by simp [Node.isGroup])] at done
            obtain ⟨_, refused, -⟩ := bind_eq_ok_iff.mp done
            rw [operands, node_eq_ok_iff.mp found] at refused
            cases refused

theorem Linked.spends_removeTree (linked : forest.Linked) (node : Handle) :
    forest.Spends [node] (forest.removeTree node) := by
  have detached := ((taken_nil forest).detach linked node).spends
  refine ⟨?_, fun assignment left source located member => ?_⟩
  · rw [Forest.removeTree, table_releaseAll]
    exact detached.cleared
  · obtain rfl := List.mem_singleton.mp member
    obtain ⟨left', found⟩ := detached.lost assignment left source located member
    refine ⟨left', node?_releaseAll_eq_some_iff.mpr ⟨fun swept => ?_, found⟩⟩
    rw [(linked.detach source).mem_sweep] at swept
    have down : forest.IsChild source assignment := ⟨_, located, by simp [Node.children]⟩
    exact linked.not_below_of_isChild down (linked.below_of_detach swept)

theorem Linked.accounted_remove (linked : forest.Linked) {node : Handle}
    (done : forest.remove node = .ok after) : forest.Accounted (.remove node) none after := by
  obtain ⟨content, -, done⟩ := bind_eq_ok_iff.mp done
  cases done
  exact (linked.spends_removeTree node).accounted (by rintro name value (_ | _ | _))

/-! ### All operations -/

theorem kept_eq_ok_iff {result : Except Fault Forest} :
    forest.kept result = (.ok answer, after) ↔ result = .ok after ∧ answer = none := by
  cases result with
  | error fault => simp [kept]
  | ok forest' => simp [kept, and_comm, eq_comm]

theorem settled_eq_ok_iff {result : Except Fault Handle × Forest} :
    settled result = (.ok answer, after) ↔
      ∃ node, result = (.ok node, after) ∧ answer = some node := by
  obtain ⟨outcome, forest'⟩ := result
  cases outcome with
  | error fault => simp [settled, Except.map]
  | ok node => simp [settled, Except.map, eq_comm, and_comm]

/-- What a structural operation does to the variables, when it is not refused: those that
forfeit their values lose them, in whatever order; the one that the operation stores for has
then the value that is stored, and all others have the values they had. -/
theorem Reachable.table_of_structural (reachable : forest.Reachable)
    (structural : operation.isStructural = true)
    (done : forest.perform operation = (.ok answer, after)) :
    ∃ cleared : Variables,
      forest.table.Cleared cleared (forest.Forfeits (operation.resolved forest) after) ∧
      (∀ name value, forest.Stores (operation.resolved forest) answer after name value →
        after.table = cleared.put name value) ∧
      ((∀ name value, ¬forest.Stores (operation.resolved forest) answer after name value) →
        after.table = cleared) := by
  have linked := reachable.linked
  have idle {operation : Operation} (table : after.table = forest.table)
      (still : operation.taken forest = [])
      (silent : ∀ name value, ¬forest.Stores operation answer after name value) :
      forest.Accounted operation answer after := by
    refine Spends.accounted ?_ silent
    rw [still]
    exact spends_nil table
  -- A new node alone takes nothing; every other operation has an account of its own above.
  cases operation with
  | constant value =>
      cases done
      exact idle rfl rfl (by rintro name value (_ | _ | _))
  | emptyGroup =>
      cases done
      exact idle rfl rfl (by rintro name value (_ | _ | _))
  | clear =>
      cases done
      exact idle rfl rfl (by rintro name value (_ | _ | _))
  | binary operator left right =>
      obtain ⟨node, made, rfl⟩ := settled_eq_ok_iff.mp done
      exact linked.accounted_addBinary made
  | assignment target source =>
      obtain ⟨node, made, rfl⟩ := settled_eq_ok_iff.mp done
      exact linked.accounted_addBinary made
  | group members =>
      obtain ⟨node, made, rfl⟩ := settled_eq_ok_iff.mp done
      exact linked.accounted_addGroup made
  | setLeft binary child =>
      obtain ⟨edited, rfl⟩ := kept_eq_ok_iff.mp done
      exact linked.accounted_setLeft edited
  | setRight binary child =>
      obtain ⟨edited, rfl⟩ := kept_eq_ok_iff.mp done
      exact linked.accounted_setRight edited
  | setParent child parent =>
      obtain ⟨edited, rfl⟩ := kept_eq_ok_iff.mp done
      exact linked.accounted_setParent edited
  | groupPush group child =>
      obtain ⟨edited, rfl⟩ := kept_eq_ok_iff.mp done
      exact linked.accounted_groupPush edited
  | groupRemove group child =>
      obtain ⟨edited, rfl⟩ := kept_eq_ok_iff.mp done
      cases removed : forest.groupRemove group child with
      | error fault =>
          rw [removed] at edited
          cases edited
      | ok outcome =>
          rw [removed] at edited
          cases edited
          exact linked.accounted_groupRemove removed
  | groupClear group =>
      obtain ⟨edited, rfl⟩ := kept_eq_ok_iff.mp done
      exact linked.accounted_groupClear edited
  | remove node =>
      obtain ⟨edited, rfl⟩ := kept_eq_ok_iff.mp done
      exact linked.accounted_remove edited
  | _ => cases structural

/-- The right operand of one assignment becomes that of another: the first target loses its
value, and the second one has what the operand was worth. -/
theorem Reachable.table_of_structural_assignment :
    let forest := (⟨.empty, .empty⟩ : Forest).run
      [.variable "x" none, .constant (.int 2), .assignment ⟨0, 0⟩ ⟨1, 0⟩, .variable "y" none]
    forest.Reachable ∧ forest.table.find? "x" = some (some (.int 2)) ∧
      ∃ after, forest.perform (.assignment ⟨3, 0⟩ ⟨1, 0⟩) = (.ok (some ⟨4, 0⟩), after) ∧
        after.table.find? "x" = some none ∧ after.table.find? "y" = some (some (.int 2)) := by
  intro forest
  have reachable : forest.Reachable := ⟨_, _, rfl⟩
  have answered : (forest.perform (.assignment ⟨3, 0⟩ ⟨1, 0⟩)).1 = .ok (some ⟨4, 0⟩) := by
    unfold forest
    cbv
  obtain ⟨cleared, spent, stored, -⟩ :=
    reachable.table_of_structural rfl (Prod.ext answered rfl)
  have forfeits : forest.Forfeits (.binary .assign (some ⟨3, 0⟩) (some ⟨1, 0⟩))
      (forest.perform (.assignment ⟨3, 0⟩ ⟨1, 0⟩)).2 "x" := by
    refine ⟨⟨2, 0⟩, ⟨0, 0⟩, ⟨1, 0⟩, ⟨?_, ?_⟩, ⟨some ⟨0, 0⟩, none, ?_, by simp⟩, [⟨3, 0⟩], [], rfl,
      by decide⟩
    all_goals
      unfold forest
      cbv
  have stores : forest.Stores (.binary .assign (some ⟨3, 0⟩) (some ⟨1, 0⟩)) (some ⟨4, 0⟩)
      (forest.perform (.assignment ⟨3, 0⟩ ⟨1, 0⟩)).2 "y" (some (.int 2)) := by
    refine .made ?_ ?_
    all_goals
      unfold forest
      cbv
  refine ⟨reachable, ?_, _, Prod.ext answered rfl, ?_, ?_⟩
  · unfold forest
    cbv
  · rw [stored "y" _ stores, Variables.find?_put, if_neg (by decide)]
    exact (spent "x").1 forfeits
  · rw [stored "y" _ stores, Variables.find?_put, if_pos rfl]

end Forest

end Worksheet
