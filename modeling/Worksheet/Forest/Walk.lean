import Worksheet.Forest.Edit

/-!
The loops over pending nodes.

A loop keeps a stack of nodes.  Each turn takes the node on top of the stack, visits it
and puts its children on the stack, the last of them on top.  What has been visited is not
written down anywhere, and a handle without a node is visited like any other.
-/

namespace Worksheet

/-- A loop that carries a state along: how it finds the forest, and what it does with a node.
The answer of a visit tells whether the loop is left at once. -/
structure Loop (State : Type) where
  forest : State → Forest
  visit : State → Handle → State × Bool

/-- A loop under way: the nodes on the stack, the next one first; those that have been taken
off it, in order; and the state. -/
structure Walk (State : Type) where
  pending : List Handle
  popped : List Handle
  state : State

/-- Whether the node is a terminal of the kind. -/
def Node.isAmong (node : Node) (terminals : Terminals) : Bool :=
  match terminals, node with
  | .all, node => node.isTerminal
  | .constants, .constant _ => true
  | .names, .variable _ => true
  | _, _ => false

def Forest.children (forest : Forest) (node : Handle) : List Handle :=
  ((forest.node? node).map Node.children).getD []

namespace Loop

variable {State : Type}

def start (node : Handle) (state : State) : Walk State :=
  ⟨[node], [], state⟩

/-- One turn of the loop.  Nothing is done once the stack is empty. -/
def turn (loop : Loop State) (walk : Walk State) : Walk State :=
  match walk.pending with
  | [] => walk
  | current :: rest =>
      let (state, left) := loop.visit walk.state current
      let children := (loop.forest walk.state).children current
      ⟨if left then [] else children.reverse ++ rest, walk.popped ++ [current], state⟩

def turns (loop : Loop State) : Nat → Walk State → Walk State
  | 0, walk => walk
  | count + 1, walk => loop.turns count (loop.turn walk)

end Loop

namespace Forest

/-! ### Searches -/

/-- The search for a node, which is left where it is found. -/
def seeking (forest : Forest) (other : Handle) : Loop Bool where
  forest _ := forest
  visit found current := if current = other then (true, true) else (found, false)

/-- The search for a node that is accepted.  The predicate may remember what it has seen. -/
def asking {Memory : Type} (forest : Forest) (accept : Memory → Node → Memory × Bool) :
    Loop (Memory × Bool) where
  forest _ := forest
  visit state current :=
    match forest.node? current with
    | none => (state, false)
    | some content => (accept state.1 content, (accept state.1 content).2)

def askingFor (forest : Forest) (such : Node → Bool) : Loop (Unit × Bool) :=
  forest.asking fun _ content => ((), such content)

def askingVariable (forest : Forest) (name : String) : Loop (Unit × Bool) :=
  forest.askingFor fun content => content = .variable name

def askingTerminal (forest : Forest) (terminals : Terminals) : Loop (Unit × Bool) :=
  forest.askingFor fun content => content.isAmong terminals

/-- Gathers the names of the variables and accepts no node. -/
def gathering (forest : Forest) : Loop (Variables × Bool) :=
  forest.asking fun names content =>
    match content with
    | .variable name => (names.declare name, false)
    | _ => (names, false)

/-! ### Freeing -/

/-- Frees every node, once its children are on the stack. -/
def freeing : Loop Forest where
  forest forest := forest
  visit forest current := (forest.release current, false)

end Forest

end Worksheet
