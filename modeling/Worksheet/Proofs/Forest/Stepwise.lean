import Worksheet.Proofs.Forest.Purity

/-!
# Mutations step by step

A mutation asks, evaluates and writes one step after the other.  Any step may fail, and then
what was written before it stays.  In a linked forest no step fails after the first one that
writes, so the steps come to what the operation is said to do.
-/

namespace Worksheet

section Running

variable {σ ε α β : Type} {steps : ExceptT ε (StateM σ) α} {state state' : σ}

theorem run_bind_of_ok {value : α}
    (taken : StateT.run (ExceptT.run steps) state = (.ok value, state'))
    (next : α → ExceptT ε (StateM σ) β) :
    StateT.run (ExceptT.run (steps >>= next)) state =
      StateT.run (ExceptT.run (next value)) state' := by
  change (match StateT.run (ExceptT.run steps) state with
    | (result, state) => StateT.run (ExceptT.bindCont next result) state) = _
  rw [taken]
  rfl

theorem run_bind_of_error {error : ε}
    (failed : StateT.run (ExceptT.run steps) state = (.error error, state'))
    (next : α → ExceptT ε (StateM σ) β) :
    StateT.run (ExceptT.run (steps >>= next)) state = (.error error, state') := by
  change (match StateT.run (ExceptT.run steps) state with
    | (result, state) => StateT.run (ExceptT.bindCont next result) state) = _
  rw [failed]
  rfl

end Running

namespace Forest

/-- Steps on a forest.  What has been written stays when a later step fails. -/
abbrev Steps := ExceptT Fault (StateM Forest)

namespace Steps

variable {α β : Type}

def on (steps : Steps α) (forest : Forest) : Except Fault α × Forest :=
  StateT.run (ExceptT.run steps) forest

/-! ### Single steps -/

def ask (question : Forest → Except Fault α) : Steps α :=
  ExceptT.mk fun forest => (question forest, forest)

def look (reading : Forest → α) : Steps α :=
  ask fun forest => .ok (reading forest)

def write (change : Forest → Forest) : Steps Unit :=
  ExceptT.mk fun forest => (.ok (), change forest)

/-- Looks for the value to assign, which may store values on its way. -/
def assignedValue (right : Option Handle) : Steps (Option Number) :=
  ExceptT.mk fun forest => forest.assignedValue right

def make (node : Node) : Steps Handle :=
  ExceptT.mk fun forest => ((forest.allocate node).map .ok id)

def operandOf (binary : Handle) (side : Side) : Steps (Option Handle) :=
  match side with
  | .left => ask (·.left binary)
  | .right => ask (·.right binary)

def changeNode (node : Handle) (change : Node → Node) : Steps Unit := do
  let _ ← ask (·.node node)
  write (·.changeNode node change)

def setParentLink (node : Handle) (parent : Option Handle) : Steps Unit := do
  let _ ← ask (·.node node)
  write (·.setParentLink node parent)

/-! ### Moving nodes -/

/-- Stores a value in the target of an assignment, or takes its value away. -/
def push (assignment : Handle) (value : Option Number) : Steps Unit := do
  match ← look (·.target? assignment) with
  | none => return
  | some name =>
      if value.isSome then
        let table ← ask (·.table.assign name value)
        write ({ · with table })
      else write fun forest => { forest with table := forest.table.clear name }

def detach (child : Handle) : Steps Unit := do
  match ← ask (·.parent child) with
  | none => return
  | some parent =>
      let assigned ← look (·.isAssigned parent child)
      changeNode parent (·.without child)
      setParentLink child none
      if assigned then push parent none

def stands (binary : Handle) (side : Side) (node : Handle) : Steps Bool := do
  if (← ask (·.parent node)) = some binary then return (← operandOf binary side) = some node
  else return false

def orphan (operand : Option Handle) : Steps Unit :=
  match operand with
  | none => return
  | some node => setParentLink node none

def attach (binary : Handle) (child : Option Handle) : Steps Unit :=
  match child with
  | none => return
  | some node => setParentLink node (some binary)

def place (binary : Handle) (side : Side) (child : Option Handle) : Steps Unit := do
  orphan (← operandOf binary side)
  let _ ← ask (·.operator binary)
  changeNode binary (·.withOperand side child)
  attach binary child

def link (binary : Handle) (side : Side) (child : Option Handle) : Steps Unit :=
  match child with
  | none => place binary side none
  | some node => do
      if ← stands binary side node then return
      else
        detach node
        place binary side (some node)

/-! ### Mutations -/

def addVariable (name : String) (value : Option Number) : Steps Handle := do
  let (_, table) ← ask (·.table.resolve name value)
  write ({ · with table })
  make (.variable name)

def setLeft (binary : Handle) (child : Option Handle) : Steps Unit := do
  if (← ask (·.operator binary)) = .assign then
    ask fun forest => child.elim (.error .invalidTarget) forest.checkTarget
    ask (·.checkOperand binary child)
    let value ← assignedValue (← ask (·.right binary))
    link binary .left child
    if value.isSome then push binary value
  else
    ask (·.checkOperand binary child)
    link binary .left child

def setRight (binary : Handle) (child : Option Handle) : Steps Unit := do
  if (← ask (·.operator binary)) = .assign then
    ask (·.checkOperand binary child)
    let value ← assignedValue child
    link binary .right child
    push binary value
  else
    ask (·.checkOperand binary child)
    link binary .right child

def groupPush (group child : Handle) : Steps Unit := do
  let _ ← ask (·.members group)
  ask (·.checkChild group child)
  detach child
  changeNode group (·.withMember child)
  setParentLink child (some group)

def groupRemove (group child : Handle) : Steps Bool := do
  let _ ← ask (·.members group)
  if (← ask (·.parent child)) = some group then
    detach child
    return true
  else return false

def groupClear (group : Handle) : Steps Unit := do
  let members ← ask (·.members group)
  members.forM detach

def addGroup (members : List Handle) : Steps Handle := do
  let node ← make (.group [])
  match ← look fun forest => members.forM (forest.checkChild node) with
  | .error fault =>
      write (·.release node)
      throw fault
  | .ok () =>
      members.forM (groupPush node)
      return node

def setParent (child : Handle) (parent : Option Handle) : Steps Unit := do
  if (← ask (·.node child)).isGroup then throw (.misplaced .groupBelow)
  match parent with
  | none => detach child
  | some parent =>
      ask (·.checkChild parent child)
      if (← ask (·.node parent)).isGroup then groupPush parent child
      else
        match ← ask (·.operands parent) with
        | (none, _) => setLeft parent (some child)
        | (_, none) => setRight parent (some child)
        | _ => throw (.misplaced .operandsTaken)

def remove (node : Handle) : Steps Unit := do
  detach node
  write fun forest => (forest.sweep node).foldl release forest

/-! ### Taking steps -/

section Taking

variable {forest forest' : Forest} {steps : Steps α} {value : α} {fault : Fault}

theorem on_pure (value : α) : (pure value : Steps α).on forest = (.ok value, forest) := rfl

theorem on_bind_of_ok (taken : steps.on forest = (.ok value, forest')) (next : α → Steps β) :
    (steps >>= next).on forest = (next value).on forest' :=
  run_bind_of_ok taken next

theorem on_bind_of_error (failed : steps.on forest = (.error fault, forest'))
    (next : α → Steps β) : (steps >>= next).on forest = (.error fault, forest') :=
  run_bind_of_error failed next

theorem on_ask {question : Forest → Except Fault α} (answer : question forest = .ok value)
    (next : α → Steps β) : (ask question >>= next).on forest = (next value).on forest :=
  on_bind_of_ok (congrArg (·, forest) answer) next

theorem on_ask_of_error {question : Forest → Except Fault α}
    (answer : question forest = .error fault) (next : α → Steps β) :
    (ask question >>= next).on forest = (.error fault, forest) :=
  on_bind_of_error (congrArg (·, forest) answer) next

theorem on_look (reading : Forest → α) (next : α → Steps β) :
    (look reading >>= next).on forest = (next (reading forest)).on forest :=
  on_bind_of_ok rfl next

end Taking

end Steps

open Steps

variable {forest : Forest} {child binary group : Handle} {content : Node} {side : Side}

/-- What a mutation comes to that leaves the forest as it is where it is refused. -/
def outcome (forest : Forest) : Except Fault Forest → Except Fault Unit × Forest
  | .error fault => (.error fault, forest)
  | .ok after => (.ok (), after)

/-- A question that is answered in the negative ends the mutation, and nothing is written. -/
theorem on_ask_bind {α : Type} {question : Forest → Except Fault α} {next : α → Steps Unit}
    {next' : α → Except Fault Forest}
    (later : ∀ value, question forest = .ok value →
      (next value).on forest = forest.outcome (next' value)) :
    (ask question >>= next).on forest = forest.outcome (question forest >>= next') := by
  cases answer : question forest with
  | error fault => exact on_ask_of_error answer next
  | ok value =>
      rw [on_ask answer]
      exact later value answer

/-! ### Steps that do not fail -/

theorem node_of_located (located : forest.node? child = some content) :
    forest.node child = .ok content :=
  node_eq_ok_iff.mpr located

theorem parent_of_located (located : forest.node? child = some content) :
    forest.parent child = .ok (forest.parent? child) := by
  obtain ⟨above, found⟩ := node?_eq_some_iff.mp located
  simp [parent, parent?, found]

theorem parent_of_dead (dead : forest.node? child = none) :
    forest.parent child = .error (.removed child) := by
  rw [node?, Option.map_eq_none_iff] at dead
  simp [parent, dead]

theorem on_changeNode (located : forest.node? child = some content) (change : Node → Node) :
    (Steps.changeNode child change).on forest = (.ok (), forest.changeNode child change) := by
  rw [Steps.changeNode, on_ask (node_of_located located)]
  rfl

theorem on_setParentLink (located : forest.node? child = some content) (parent : Option Handle) :
    (Steps.setParentLink child parent).on forest =
      (.ok (), forest.setParentLink child parent) := by
  rw [Steps.setParentLink, on_ask (node_of_located located)]
  rfl

theorem on_make {allocated : Forest} (new : forest.allocate content = (child, allocated)) :
    (make content).on forest = (.ok child, allocated) :=
  congrArg (Prod.map Except.ok id) new

theorem on_push (assignment : Handle) (value : Option Number) :
    (push assignment value).on forest = (.ok (), forest.store assignment value) := by
  rw [push, on_look, store]
  cases forest.target? assignment with
  | none => rfl
  | some name => cases value <;> rfl

theorem Linked.on_detach (linked : forest.Linked) (located : forest.node? child = some content) :
    (Steps.detach child).on forest = (.ok (), forest.detach child) := by
  rw [Steps.detach, on_ask (parent_of_located located), Forest.detach]
  cases above : forest.parent? child with
  | none => rfl
  | some parent =>
      obtain ⟨upper, found, -⟩ := linked.count_of_parent? child parent above
      have located' : ∃ content,
          (forest.changeNode parent (·.without child)).node? child = some content := by
        rw [node?_changeNode]
        split
        next => exact ⟨_, by rw [found]; rfl⟩
        next => exact ⟨content, located⟩
      obtain ⟨content', located'⟩ := located'
      dsimp only
      rw [on_look, on_bind_of_ok (on_changeNode found _),
        on_bind_of_ok (on_setParentLink located' none)]
      cases forest.isAssigned parent child with
      | false => rfl
      | true => exact on_push parent none

theorem on_detach_of_dead (dead : forest.node? child = none) :
    (Steps.detach child).on forest = (.error (.removed child), forest) :=
  on_ask_of_error (parent_of_dead dead) _

theorem Linked.on_detachAll (linked : forest.Linked) {nodes : List Handle}
    (located : ∀ node ∈ nodes, ∃ content, forest.node? node = some content) :
    (nodes.forM Steps.detach).on forest = (.ok (), nodes.foldl Forest.detach forest) := by
  induction nodes generalizing forest with
  | nil => rfl
  | cons node rest inductionHypothesis =>
      obtain ⟨content, here⟩ := located node List.mem_cons_self
      rw [List.forM, on_bind_of_ok (linked.on_detach here), List.foldl_cons]
      refine inductionHypothesis (linked.detach node) fun other later => ?_
      obtain ⟨content, there⟩ := located other (List.mem_cons_of_mem node later)
      exact ⟨_, by rw [linked.node?_detach, there]; rfl⟩

/-! ### Putting a node in the place of an operand -/

theorem on_operandOf {operator : Operator} (located : forest.node? binary = some content)
    (isBinary : content.operator? = some operator) (side : Side) :
    (operandOf binary side).on forest = (.ok (forest.operand? binary side), forest) := by
  obtain ⟨left, right, rfl⟩ := Node.operator?_eq_some_iff.mp isBinary
  have found : forest.operands binary = .ok (left, right) := by rw [operands, located]
  cases side with
  | left =>
      have asked : forest.left binary = .ok left := by rw [Forest.left, found]; rfl
      rw [operand?, located]
      exact congrArg (·, forest) asked
  | right =>
      have asked : forest.right binary = .ok right := by rw [Forest.right, found]; rfl
      rw [operand?, located]
      exact congrArg (·, forest) asked

theorem Linked.on_orphan (linked : forest.Linked) (binary : Handle) (side : Side) :
    (Steps.orphan (forest.operand? binary side)).on forest =
      (.ok (), forest.orphan (forest.operand? binary side)) := by
  cases before : forest.operand? binary side with
  | none => rfl
  | some previous =>
      obtain ⟨content, located, here⟩ := operand?_eq_some_iff.mp before
      obtain ⟨lower, live⟩ := node?_of_parent? (linked.parent?_of_child previous binary
        ⟨content, located, Node.mem_children_of_operand? here⟩)
      exact on_setParentLink live none

theorem Linked.on_place (linked : forest.Linked) {operator : Operator}
    (located : forest.node? binary = some content) (isBinary : content.operator? = some operator)
    (side : Side) {child : Option Handle}
    (live : ∀ node, child = some node → ∃ content, forest.node? node = some content) :
    (Steps.place binary side child).on forest = (.ok (), forest.place binary side child) := by
  have orphaned := linked.on_orphan binary side
  have located' : (forest.orphan (forest.operand? binary side)).node? binary = some content := by
    rw [node?_orphan, located]
  rw [Steps.place, on_bind_of_ok (on_operandOf located isBinary side), on_bind_of_ok orphaned,
    on_ask (operator_eq_ok_iff.mpr ⟨content, located', isBinary⟩),
    on_bind_of_ok (on_changeNode located' _)]
  cases child with
  | none => rfl
  | some node =>
      obtain ⟨lower, found⟩ := live node rfl
      have found' : ∃ content, ((forest.orphan (forest.operand? binary side)).changeNode binary
          (·.withOperand side (some node))).node? node = some content := by
        rw [node?_changeNode, node?_orphan, node?_orphan, located]
        split
        next => exact ⟨_, rfl⟩
        next => exact ⟨lower, found⟩
      obtain ⟨lower', found'⟩ := found'
      exact on_setParentLink found' (some binary)

theorem Linked.on_link (linked : forest.Linked) {operator : Operator}
    (located : forest.node? binary = some content) (isBinary : content.operator? = some operator)
    (side : Side) {child : Option Handle}
    (live : ∀ node, child = some node → ∃ content, forest.node? node = some content) :
    (Steps.link binary side child).on forest = (.ok (), forest.link binary side child) := by
  cases child with
  | none => exact linked.on_place located isBinary side live
  | some node =>
      obtain ⟨lower, found⟩ := live node rfl
      have standing : (stands binary side node).on forest =
          (.ok (decide (forest.parent? node = some binary ∧
            forest.operand? binary side = some node)), forest) := by
        rw [stands, on_ask (parent_of_located found)]
        by_cases below : forest.parent? node = some binary
        · rw [if_pos below, on_bind_of_ok (on_operandOf located isBinary side), on_pure]
          simp [below]
        · rw [if_neg below, on_pure]
          simp [below]
      rw [Steps.link, on_bind_of_ok standing, Forest.link]
      by_cases there : forest.parent? node = some binary ∧ forest.operand? binary side = some node
      · rw [if_pos (decide_eq_true there), if_pos there]
        rfl
      · have detached := linked.detach node
        have located' : (forest.detach node).node? binary = some (content.without node) := by
          rw [linked.node?_detach, located, Option.map_some]
        have isBinary' : (content.without node).operator? = some operator := by
          rw [Node.operator?_without, isBinary]
        rw [if_neg (by simpa using there), if_neg there, on_bind_of_ok (linked.on_detach found)]
        refine detached.on_place located' isBinary' side ?_
        rintro other ⟨⟩
        exact ⟨_, by rw [linked.node?_detach, found]; rfl⟩

end Forest

end Worksheet
