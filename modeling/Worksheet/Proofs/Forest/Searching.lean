import Worksheet.Proofs.Expr.Replay
import Worksheet.Proofs.Forest.Moving
import Worksheet.Proofs.Forest.Parts
import Worksheet.Proofs.Forest.Taking
import Worksheet.Proofs.Forest.Unrooting
import Worksheet.Proofs.Forest.Walking

/-!
# Searches

The loops over pending nodes find what is in a tree and nothing else: the nodes to which links
lead, the terminals, and the names of the variables.  The loop that frees the nodes is one of
them.
-/

namespace Worksheet

theorem Variables.mem_names_iff {table : Variables} {name : String} :
    name ∈ table.names ↔ table.isRegistered name = true := by
  rw [isRegistered, find?, names, List.mem_map, List.lookup_isSome_iff]
  apply exists_congr
  intro entry
  rw [beq_iff_eq, eq_comm]

theorem Variables.declareAll_congr (table : Variables) {first second : List String}
    (same : ∀ name, name ∈ first ↔ name ∈ second) :
    table.declareAll first = table.declareAll second := by
  apply eq_of_find?
  intro name
  rw [find?_declareAll, find?_declareAll]
  exact if_congr (same name) rfl rfl

theorem Variables.sorted_names (table : Variables) : table.names.Pairwise (· < ·) :=
  List.pairwise_map.mpr table.sorted

namespace Forest

variable {forest : Forest} {node other : Handle}

/-! ### What the visits come to -/

theorem outcome_seeking (nodes : List Handle) :
    (forest.seeking other).outcome false nodes = decide (other ∈ nodes) := by
  induction nodes with
  | nil => rfl
  | cons node rest inductionHypothesis =>
      rw [Loop.outcome_cons]
      by_cases here : node = other
      · simp [seeking, here]
      · have elsewhere : (forest.seeking other).visit false node = (false, false) := if_neg here
        simp [elsewhere, inductionHypothesis, Ne.symm here]

section Asking

variable {Memory : Type} {accept : Memory → Node → Memory × Bool} {memory : Memory}

theorem visit_asking_of_dead (dead : forest.node? node = none) (found : Bool) :
    (forest.asking accept).visit (memory, found) node = ((memory, found), false) := by
  simp only [asking, dead]

theorem visit_asking_of_located {content : Node} (located : forest.node? node = some content)
    (found : Bool) :
    (forest.asking accept).visit (memory, found) node =
      (accept memory content, (accept memory content).2) := by
  simp only [asking, located]

end Asking

theorem outcome_askingFor (such : Node → Bool) (nodes : List Handle) :
    (forest.askingFor such).outcome ((), false) nodes =
      ((), nodes.any fun low => (forest.node? low).any such) := by
  induction nodes with
  | nil => rfl
  | cons node rest inductionHypothesis =>
      rw [Loop.outcome_cons, List.any_cons, askingFor]
      cases located : forest.node? node with
      | none =>
          rw [visit_asking_of_dead located]
          exact inductionHypothesis
      | some content =>
          rw [visit_asking_of_located located]
          cases accepted : such content with
          | true => simp [accepted]
          | false =>
              simp only [accepted, Bool.false_eq_true, if_false, Option.any_some, Bool.false_or]
              exact inductionHypothesis

theorem outcome_gathering (names : Variables) (nodes : List Handle) :
    forest.gathering.outcome (names, false) nodes =
      (names.declareAll (nodes.filterMap forest.name?), false) := by
  induction nodes generalizing names with
  | nil => rfl
  | cons node rest inductionHypothesis =>
      rw [Loop.outcome_cons, List.filterMap_cons, name?, gathering]
      cases located : forest.node? node with
      | none =>
          rw [visit_asking_of_dead located]
          exact inductionHypothesis names
      | some content =>
          rw [visit_asking_of_located located]
          cases content with
          | «variable» name => exact inductionHypothesis (names.declare name)
          | _ => exact inductionHypothesis names

theorem outcome_freeing (forest : Forest) (nodes : List Handle) :
    freeing.outcome forest nodes = nodes.foldl release forest := by
  induction nodes generalizing forest with
  | nil => rfl
  | cons node rest inductionHypothesis => exact inductionHypothesis (forest.release node)

theorem local_seeking (forest : Forest) (other : Handle) : (forest.seeking other).Local :=
  fun _ _ _ _ => rfl

theorem local_asking {Memory : Type} (forest : Forest) (accept : Memory → Node → Memory × Bool) :
    (forest.asking accept).Local :=
  fun _ _ _ _ => rfl

theorem local_freeing : freeing.Local := by
  intro forest current other different
  have stays : other ∉ [current] := by simpa using different
  exact (node?_releaseAll forest [current] other).trans (if_neg stays)

/-! ### What a search finds -/

theorem has_iff {such : Node → Prop} :
    forest.Has node such ↔ (∃ content, forest.node? node = some content ∧ such content) ∨
      ∃ child ∈ forest.children node, forest.Has child such := by
  constructor
  · rintro ⟨low, content, below, located, holds⟩
    rcases below_iff.mp below with rfl | ⟨child, ⟨upper, above, member⟩, below⟩
    · exact .inl ⟨content, located, holds⟩
    · exact .inr ⟨child, children_of_located above ▸ member, low, content, below, located, holds⟩
  · rintro (⟨content, located, holds⟩ | ⟨child, member, low, content, below, located, holds⟩)
    · exact ⟨node, content, .refl, located, holds⟩
    · refine ⟨low, content, below.tail (mem_children_iff.mp member), located, holds⟩

/-- What is told of a tree by its nodes alone is told of the nodes that are found. -/
theorem Linked.exists_trees_iff (linked : forest.Linked) {holds : Tree → Prop}
    {such : Node → Prop} (lost : ∀ id, ¬holds (.lost id)) (group : ∀ members, ¬such (.group members))
    (step : ∀ id read content, content.isGroup = false →
      (holds (Tree.ofNode id read (some content)) ↔
        such content ∨ ∃ child ∈ content.children, holds (read child))) :
    (∃ tree ∈ forest.trees node, holds tree) ↔ forest.Has node such := by
  have single (node : Handle) (single : forest.Single node) :
      holds (forest.tree node) ↔ forest.Has node such := by
    induction node using linked.tree_induction with
    | _ node inductionHypothesis =>
      rw [linked.tree_eq, has_iff]
      cases located : forest.node? node with
      | none => simp [Tree.ofNode, lost, children, located]
      | some content =>
          have notGroup : content.isGroup = false := by
            apply Bool.eq_false_iff.mpr
            intro isGroup
            obtain ⟨members, rfl⟩ := Node.isGroup_eq_true_iff.mp isGroup
            exact single members located
          rw [step node forest.tree content notGroup, children_of_located located]
          refine or_congr (by simp) (exists_congr fun child => and_congr_right fun member => ?_)
          have down : forest.IsChild child node := ⟨content, located, member⟩
          exact inductionHypothesis child down (linked.child_not_group down)
  unfold trees
  split
  next members located =>
    rw [has_iff, children_of_located located, located]
    have each (member : Handle) (listed : member ∈ members) :
        holds (forest.tree member) ↔ forest.Has member such :=
      single member (linked.child_not_group ⟨_, located, listed⟩)
    simpa [group, Node.children] using exists_congr fun member => and_congr_right (each member)
  next notGroup => simpa using single node notGroup

theorem Linked.mem_names_trees_iff (linked : forest.Linked) {name : String} :
    name ∈ (forest.trees node).flatMap Tree.names ↔
      forest.Has node fun content => content = .variable name := by
  rw [List.mem_flatMap]
  apply linked.exists_trees_iff
  · simp [Tree.names]
  · simp
  · intro id read content single
    cases content with
    | binary operator left right =>
        cases left <;> cases right <;>
          simp [Tree.ofNode, Tree.ofOperand, Tree.names, Node.children]
    | group members => cases single
    | _ => simp [Tree.ofNode, Tree.names, Node.children, eq_comm]

theorem Linked.containsVariable_iff (linked : forest.Linked) {name : String} :
    forest.containsVariable node name = true ↔
      forest.Has node fun content => content = .variable name := by
  rw [← linked.mem_names_trees_iff]
  simp [containsVariable]

theorem Linked.mem_variableNames_iff (linked : forest.Linked) {name : String} :
    name ∈ forest.variableNames node ↔
      forest.Has node fun content => content = .variable name := by
  rw [← linked.mem_names_trees_iff]
  change name ∈ (Variables.empty.declareAll _).names ↔ _
  rw [Variables.mem_names_iff, Variables.isRegistered_declareAll]
  simp [Variables.isRegistered]

theorem holds_binary {id : Handle} {operator : Operator} {left right : Tree}
    {terminals : Terminals} :
    (Tree.binary id operator left right).holds terminals = true ↔
      left.holds terminals = true ∨ right.holds terminals = true := by
  cases terminals <;>
    simp only [Tree.holds, Tree.names, Tree.constants, Bool.or_eq_true, Bool.not_eq_true',
      List.isEmpty_eq_false_iff, ne_eq, List.append_eq_nil_iff, not_and_or]
  exact or_or_or_comm

theorem Linked.containsTerminal_iff (linked : forest.Linked) {terminals : Terminals} :
    forest.containsTerminal node terminals = true ↔ forest.Has node terminals.Admits := by
  rw [containsTerminal, List.any_eq_true]
  apply linked.exists_trees_iff
  · cases terminals <;> simp [Tree.holds, Tree.names, Tree.constants]
  · cases terminals <;> simp [Terminals.Admits, Node.isTerminal]
  · intro id read content single
    cases content with
    | binary operator left right =>
        have other : ¬terminals.Admits (.binary operator left right) := by
          cases terminals <;> simp [Terminals.Admits, Node.isTerminal]
        have vacant : Tree.vacant.holds terminals = false := by cases terminals <;> rfl
        rw [Tree.ofNode, holds_binary]
        cases left <;> cases right <;> simp [Tree.ofOperand, Node.children, other, vacant]
    | group members => cases single
    | _ =>
        cases terminals <;> simp [Tree.ofNode, Tree.holds, Tree.names, Tree.constants,
          Node.children, Terminals.Admits, Node.isTerminal]

theorem Linked.any_sweep_iff (linked : forest.Linked) {such : Node → Bool} :
    ((forest.sweep node).any fun low => (forest.node? low).any such) = true ↔
      forest.Has node fun content => such content = true := by
  rw [List.any_eq_true]
  constructor
  · rintro ⟨low, swept, accepted⟩
    obtain ⟨content, located, holds⟩ := Option.any_eq_true _ _ |>.mp accepted
    exact ⟨low, content, linked.mem_sweep.mp swept, located, holds⟩
  · rintro ⟨low, content, below, located, holds⟩
    exact ⟨low, linked.mem_sweep.mpr below, by simp [located, holds]⟩

theorem isAmong_iff {content : Node} {terminals : Terminals} :
    content.isAmong terminals = true ↔ terminals.Admits content := by
  cases terminals <;> cases content <;>
    simp [Node.isAmong, Terminals.Admits, Node.isTerminal]

theorem Linked.halts_seeking (linked : forest.Linked) (node other : Handle) :
    (forest.seeking other).Halts forest node false (forest.contains node other) :=
  linked.halts (local_seeking forest other) (fun _ _ => rfl) (outcome_seeking _)

theorem Linked.halts_askingFor (linked : forest.Linked) {such : Node → Bool} {found : Bool}
    (decides : found = true ↔ forest.Has node fun content => such content = true) :
    (forest.askingFor such).Halts forest node ((), false) ((), found) := by
  apply linked.halts (local_asking forest _) fun _ _ => rfl
  apply (outcome_askingFor such (forest.sweep node)).trans
  rw [Bool.eq_iff_iff.mpr (linked.any_sweep_iff.trans decides.symm)]

theorem Linked.halts_gathering (linked : forest.Linked) (node : Handle) :
    ∃ table, forest.gathering.Halts forest node (.empty, false) (table, false) ∧
      table.names = forest.variableNames node := by
  refine ⟨.declareAll .empty ((forest.trees node).flatMap Tree.names), ?_, rfl⟩
  apply linked.halts (local_asking forest _) fun _ _ => rfl
  apply (outcome_gathering .empty (forest.sweep node)).trans
  refine congrArg (·, false) (Variables.declareAll_congr .empty fun name => ?_)
  rw [linked.mem_names_trees_iff, List.mem_filterMap]
  constructor
  · rintro ⟨low, swept, named⟩
    exact ⟨low, _, linked.mem_sweep.mp swept, name?_eq_some_iff.mp named, rfl⟩
  · rintro ⟨low, _, below, located, rfl⟩
    exact ⟨low, linked.mem_sweep.mpr below, name?_eq_some_iff.mpr located⟩

theorem Linked.isLive_detach (linked : forest.Linked) :
    (forest.detach node).isLive other = true ↔ forest.isLive other = true := by
  simp [isLive_iff, linked.node?_detach]

theorem Linked.size_detach (linked : forest.Linked) (node : Handle) :
    (forest.detach node).size = forest.size := by
  rw [linked.size_eq_length_nodes]
  apply (linked.detach node).size_eq_length (Pool.nodup_handles forest.cells)
  exact fun other => mem_nodes_iff.trans linked.isLive_detach.symm

theorem Linked.halts_freeing (linked : forest.Linked) (node : Handle) :
    freeing.Halts forest node (forest.detach node) (forest.removeTree node) := by
  obtain ⟨distinct, below, bounded, ended, result⟩ := (linked.detach node).halts local_freeing
    (fun _ _ => rfl) (outcome_freeing (forest.detach node) ((forest.detach node).sweep node))
  rw [linked.size_detach] at bounded ended result
  refine ⟨distinct, fun count low popped => ?_, bounded, ended, result⟩
  exact linked.below_of_detach (below count low popped)

/-- The loops over pending nodes end on every handle, live or not, within as many turns as there
are nodes, and find what there is to be found in the tree. -/
theorem Reachable.walks_exact (reachable : forest.Reachable) (node : Handle) :
    (∀ other, (forest.seeking other).Halts forest node false (forest.contains node other) ∧
      (forest.contains node other = true ↔
        other = node ∨ Relation.TransGen forest.IsChild other node)) ∧
    (∀ (Memory : Type) (accept : Memory → Node → Memory × Bool) (memory : Memory),
      ∃ result, (forest.asking accept).Halts forest node (memory, false) result) ∧
    (∀ name, (forest.askingVariable name).Halts forest node ((), false)
        ((), forest.containsVariable node name) ∧
      (forest.containsVariable node name = true ↔
        forest.Has node fun content => content = .variable name)) ∧
    (∀ terminals, (forest.askingTerminal terminals).Halts forest node ((), false)
        ((), forest.containsTerminal node terminals) ∧
      (forest.containsTerminal node terminals = true ↔ forest.Has node terminals.Admits)) ∧
    ((∃ table, forest.gathering.Halts forest node (.empty, false) (table, false) ∧
        table.names = forest.variableNames node) ∧
      (forest.variableNames node).Pairwise (· < ·) ∧
      ∀ name, name ∈ forest.variableNames node ↔
        forest.Has node fun content => content = .variable name) ∧
    (forest.isLive node = true → forest.remove node = .ok (forest.removeTree node) ∧
      freeing.Halts forest node (forest.detach node) (forest.removeTree node)) ∧
    (forest.isLive node = false → forest.remove node = .error (.removed node)) := by
  have linked := reachable.linked
  refine ⟨fun other => ⟨linked.halts_seeking node other, ?_⟩, fun Memory accept memory => ?_,
    fun name => ⟨?_, linked.containsVariable_iff⟩,
    fun terminals => ⟨?_, linked.containsTerminal_iff⟩,
    ⟨linked.halts_gathering node, Variables.sorted_names _, fun _ => linked.mem_variableNames_iff⟩,
    fun live => ⟨?_, linked.halts_freeing node⟩, fun dead => ?_⟩
  · rw [linked.contains_iff, Below, Relation.reflTransGen_iff_eq_or_transGen, eq_comm]
  · exact ⟨_, linked.halts (local_asking forest accept) (fun _ _ => rfl) rfl⟩
  · apply linked.halts_askingFor
    simpa using linked.containsVariable_iff
  · apply linked.halts_askingFor
    simpa [isAmong_iff] using linked.containsTerminal_iff
  · obtain ⟨content, located⟩ := isLive_iff.mp live
    exact remove_eq_ok located
  · rw [remove, Forest.node, node?_of_dead dead]
    rfl

/-- The walks over a group of a sum and a variable, beside a removed node: they pop the members
from the last to the first, they stop where they have found what they look for, and a stale
handle is popped alone. -/
theorem Reachable.walks_exact_group :
    let forest := (⟨.empty, .empty⟩ : Forest).run
      [.variable "y" none, .constant (.int 2), .binary .add (some ⟨0, 0⟩) (some ⟨1, 0⟩),
        .variable "x" none, .group [⟨2, 0⟩, ⟨3, 0⟩], .constant (.int 7), .remove ⟨5, 0⟩]
    let search := (forest.seeking ⟨1, 0⟩).turns 5 (Loop.start ⟨4, 0⟩ false)
    forest.Reachable ∧ forest.size = 5 ∧
      search.popped = [⟨4, 0⟩, ⟨3, 0⟩, ⟨2, 0⟩, ⟨1, 0⟩] ∧ search.pending = [] ∧
      forest.contains ⟨4, 0⟩ ⟨1, 0⟩ = true ∧ forest.variableNames ⟨4, 0⟩ = ["x", "y"] ∧
      forest.contains ⟨5, 0⟩ ⟨5, 0⟩ = true ∧ forest.variableNames ⟨5, 0⟩ = [] ∧
      forest.remove ⟨5, 0⟩ = .error (.removed ⟨5, 0⟩) := by
  intro forest search
  have reachable : forest.Reachable := ⟨_, _, rfl⟩
  have evaluated : forest.size = 5 ∧ search.popped = [⟨4, 0⟩, ⟨3, 0⟩, ⟨2, 0⟩, ⟨1, 0⟩] ∧
      search.state = true ∧ forest.variableNames ⟨4, 0⟩ = ["x", "y"] ∧
      forest.isLive ⟨5, 0⟩ = false ∧ forest.variableNames ⟨5, 0⟩ = [] := by decide +kernel
  obtain ⟨sized, popped, found, names, dead, none⟩ := evaluated
  obtain ⟨seeks, -⟩ := walks_exact reachable ⟨4, 0⟩
  obtain ⟨seeks', -, -, -, -, -, refuses⟩ := walks_exact reachable ⟨5, 0⟩
  obtain ⟨-, -, -, ended, result⟩ := (seeks ⟨1, 0⟩).1
  rw [sized] at ended result
  exact ⟨reachable, sized, popped, ended, result.symm.trans found, names,
    (seeks' ⟨5, 0⟩).2.mpr (.inl rfl), none, refuses dead⟩

end Forest

end Worksheet
