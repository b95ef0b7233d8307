import Worksheet.Forest.Walk
import Worksheet.Proofs.Forest.Census

/-!
# Walks over trees

What is still to be popped by a loop is what the sweeps of the pending nodes find.  Since the
trees of pending nodes are apart, no node is popped twice although the loop remembers none,
and it ends after as many turns as the tree has nodes.
-/

namespace Worksheet

variable {State : Type} {loop : Loop State} {walk : Walk State} {forest : Forest}
  {node other : Handle} {state : State}

namespace Loop

/-- The nodes that are visited, out of those that are to be popped, until the loop is left. -/
def visited (loop : Loop State) (state : State) : List Handle → List Handle
  | [] => []
  | node :: rest =>
      let (state, left) := loop.visit state node
      node :: if left then [] else loop.visited state rest

def outcome (loop : Loop State) (state : State) : List Handle → State
  | [] => state
  | node :: rest =>
      let (state, left) := loop.visit state node
      if left then state else loop.outcome state rest

theorem outcome_cons (loop : Loop State) (state : State) (node : Handle) (rest : List Handle) :
    loop.outcome state (node :: rest) =
      if (loop.visit state node).2 then (loop.visit state node).1
      else loop.outcome (loop.visit state node).1 rest :=
  rfl

theorem visited_cons (loop : Loop State) (state : State) (node : Handle) (rest : List Handle) :
    loop.visited state (node :: rest) =
      node :: if (loop.visit state node).2 then []
        else loop.visited (loop.visit state node).1 rest :=
  rfl

theorem visited_prefix (loop : Loop State) (state : State) (nodes : List Handle) :
    loop.visited state nodes <+: nodes := by
  induction nodes generalizing state with
  | nil => exact List.nil_prefix
  | cons node rest inductionHypothesis =>
      rw [visited_cons, List.prefix_cons_inj]
      split
      next => exact List.nil_prefix
      next => exact inductionHypothesis _

/-- A visit changes no other node. -/
def Local (loop : Loop State) : Prop :=
  ∀ state current other, other ≠ current →
    (loop.forest (loop.visit state current).1).node? other = (loop.forest state).node? other

/-- The loop comes to an end on the tree of the node: it pops nothing twice and nothing that is
not in the tree, hence no more nodes than there are, or the one handle that finds nothing. -/
structure Halts (loop : Loop State) (forest : Forest) (node : Handle) (state result : State) :
    Prop where
  distinct : ∀ count, (loop.turns count (start node state)).popped.Nodup
  below : ∀ count, ∀ low ∈ (loop.turns count (start node state)).popped, forest.Below low node
  bounded : ∀ count, (loop.turns count (start node state)).popped.length ≤ max 1 forest.size
  ended : (loop.turns (max 1 forest.size) (start node state)).pending = []
  result : (loop.turns (max 1 forest.size) (start node state)).state = result

end Loop

/-! ### What is still to be popped -/

/-- The nodes in the trees of the pending ones, in the order of the stack. -/
def Walk.remaining (forest : Forest) (walk : Walk State) : List Handle :=
  walk.pending.flatMap forest.sweep

namespace Forest

theorem children_of_located {content : Node} (located : forest.node? node = some content) :
    forest.children node = content.children := by
  rw [children, located, Option.map_some, Option.getD_some]

theorem children_congr {forest' : Forest} (same : forest'.node? node = forest.node? node) :
    forest'.children node = forest.children node := by
  rw [children, children, same]

theorem mem_children_iff {child : Handle} :
    child ∈ forest.children node ↔ forest.IsChild child node := by
  rw [children, IsChild]
  cases forest.node? node <;> simp

theorem Linked.sweep_eq_children (linked : forest.Linked) (node : Handle) :
    forest.sweep node = node :: (forest.children node).reverse.flatMap forest.sweep := by
  cases located : forest.node? node with
  | none =>
      rw [sweep, linked.tree_eq, children, located]
      rfl
  | some content => rw [linked.sweep_eq located, children_of_located located]

theorem node?_of_dead (dead : forest.isLive node = false) : forest.node? node = none := by
  simpa [isLive, Pool.contains, node?] using dead

theorem Linked.length_sweep_le (linked : forest.Linked) (node : Handle) :
    (forest.sweep node).length ≤ max 1 forest.size := by
  cases live : forest.isLive node with
  | true =>
      have listed : forest.sweep node ⊆ forest.nodes := fun low swept =>
        mem_nodes_iff.mpr (linked.isLive_of_mem_sweep live swept)
      have fewer := ((linked.nodup_sweep node).subperm listed).length_le
      rw [linked.size_eq_length_nodes]
      omega
  | false =>
      rw [linked.sweep_eq_children, children, node?_of_dead live]
      exact Nat.le_max_left 1 forest.size

end Forest

namespace Walk

open Forest

/-- The loop sees the nodes that are still to be popped as they were, and it comes to them once. -/
structure Heads (loop : Loop State) (forest : Forest) (walk : Walk State)
    (visited : List Handle) (outcome : State) : Prop where
  distinct : (walk.remaining forest).Nodup
  sees : ∀ low ∈ walk.remaining forest, (loop.forest walk.state).node? low = forest.node? low
  visited : walk.popped ++ loop.visited walk.state (walk.remaining forest) = visited
  outcome : loop.outcome walk.state (walk.remaining forest) = outcome

theorem remaining_eq_nil_iff (linked : forest.Linked) :
    walk.remaining forest = [] ↔ walk.pending = [] := by
  rw [remaining, List.flatMap_eq_nil_iff]
  constructor
  · intro all
    cases found : walk.pending with
    | nil => rfl
    | cons current rest =>
        have none := all current (by simp [found])
        rw [linked.sweep_eq_children] at none
        cases none
  · intro ended
    simp [ended]

/-- A turn takes the first node away that is still to be popped, if there is one. -/
theorem turn_cases (linked : forest.Linked)
    (sees : ∀ low ∈ walk.remaining forest,
      (loop.forest walk.state).node? low = forest.node? low) :
    walk.remaining forest = [] ∧ loop.turn walk = walk ∨
    ∃ current later, walk.remaining forest = current :: later ∧
      (loop.turn walk).remaining forest =
        (if (loop.visit walk.state current).2 then [] else later) ∧
      (loop.turn walk).popped = walk.popped ++ [current] ∧
      (loop.turn walk).state = (loop.visit walk.state current).1 := by
  cases found : walk.pending with
  | nil => exact .inl ⟨(remaining_eq_nil_iff linked).mpr found, by rw [Loop.turn, found]⟩
  | cons current rest =>
      have first : walk.remaining forest = current ::
          ((forest.children current).reverse ++ rest).flatMap forest.sweep := by
        rw [remaining, found, List.flatMap_cons, linked.sweep_eq_children, List.flatMap_append,
          List.cons_append]
      have children := children_congr (sees current (by simp [first]))
      refine .inr ⟨current, _, first, ?_, ?_, ?_⟩
      · rw [remaining, Loop.turn, found]
        dsimp only
        rw [children]
        split <;> rfl
      · rw [Loop.turn, found]
      · rw [Loop.turn, found]

theorem Heads.turn {visited : List Handle} {outcome : State} (linked : forest.Linked)
    (keeps : loop.Local) (heads : walk.Heads loop forest visited outcome) :
    (loop.turn walk).Heads loop forest visited outcome := by
  rcases turn_cases linked heads.sees with ⟨-, same⟩ | ⟨current, later, first, next, popped, state⟩
  · rwa [same]
  · obtain ⟨distinct, sees, through, result⟩ := heads
    rw [first] at distinct sees through result
    obtain ⟨fresh, distinct⟩ := List.nodup_cons.mp distinct
    rw [Loop.visited_cons] at through
    rw [Loop.outcome_cons] at result
    cases left : (loop.visit walk.state current).2 with
    | true =>
        simp only [left, if_true] at next through result
        constructor
        · simp [next]
        · simp [next]
        · rw [next, popped, Loop.visited, List.append_nil, through]
        · rw [next, state, Loop.outcome, result]
    | false =>
        simp only [left, Bool.false_eq_true, if_false] at next through result
        constructor
        · rw [next]
          exact distinct
        · intro low member
          rw [next] at member
          have different : low ≠ current := fun same => fresh (same ▸ member)
          rw [state, keeps walk.state current low different]
          exact sees low (List.mem_cons_of_mem current member)
        · rw [next, popped, state, List.append_assoc, List.singleton_append, through]
        · rw [next, state, result]

theorem Heads.turns {visited : List Handle} {outcome : State} (linked : forest.Linked)
    (keeps : loop.Local) (heads : walk.Heads loop forest visited outcome) (count : Nat) :
    (loop.turns count walk).Heads loop forest visited outcome := by
  induction count generalizing walk with
  | zero => exact heads
  | succ count inductionHypothesis => exact inductionHypothesis (heads.turn linked keeps)

/-- The loop ends as soon as it has had a turn for every node that is still to be popped. -/
theorem Heads.remaining_turns {visited : List Handle} {outcome : State} (linked : forest.Linked)
    (keeps : loop.Local) (heads : walk.Heads loop forest visited outcome) {count : Nat}
    (enough : (walk.remaining forest).length ≤ count) :
    (loop.turns count walk).remaining forest = [] := by
  induction count generalizing walk with
  | zero => exact List.length_eq_zero_iff.mp (Nat.le_zero.mp enough)
  | succ count inductionHypothesis =>
      apply inductionHypothesis (heads.turn linked keeps)
      rcases turn_cases linked heads.sees with ⟨done, same⟩ | ⟨current, later, first, next, -⟩
      · rw [same, done]
        exact Nat.zero_le count
      · rw [first, List.length_cons] at enough
        rw [next]
        split
        next => exact Nat.zero_le count
        next => exact Nat.le_of_succ_le_succ enough

end Walk

namespace Forest

/-- A loop whose visits leave other nodes alone ends, and its state is what the visits of the
nodes in the order of a sweep come to. -/
theorem Linked.halts (linked : forest.Linked) (keeps : loop.Local)
    (sees : ∀ low, forest.Below low node → (loop.forest state).node? low = forest.node? low)
    {result : State} (through : loop.outcome state (forest.sweep node) = result) :
    loop.Halts forest node state result := by
  have whole : (Loop.start node state).remaining forest = forest.sweep node := by
    simp [Walk.remaining, Loop.start]
  have heads : (Loop.start node state).Heads loop forest
      (loop.visited state (forest.sweep node)) (loop.outcome state (forest.sweep node)) := by
    constructor
    · rw [whole]
      exact linked.nodup_sweep node
    · rw [whole]
      exact fun low member => sees low (linked.mem_sweep.mp member)
    · rw [whole]
      rfl
    · rw [whole]
      rfl
  have leading (count : Nat) :
      (loop.turns count (Loop.start node state)).popped <+: forest.sweep node := by
    have passed := (heads.turns linked keeps count).visited
    exact .trans ⟨_, passed⟩ (loop.visited_prefix state _)
  -- Every turn takes one node off what remains, and the forest holds no fewer than those.
  have last : (loop.turns (max 1 forest.size) (Loop.start node state)).remaining forest = [] := by
    apply heads.remaining_turns linked keeps
    rw [whole]
    exact linked.length_sweep_le node
  constructor
  · exact fun count => (linked.nodup_sweep node).sublist (leading count).sublist
  · exact fun count low member => linked.mem_sweep.mp ((leading count).subset member)
  · exact fun count => (leading count).length_le.trans (linked.length_sweep_le node)
  · exact (Walk.remaining_eq_nil_iff linked).mp last
  · have passed := (heads.turns linked keeps (max 1 forest.size)).outcome
    rw [last] at passed
    exact passed.trans through

end Forest

end Worksheet
