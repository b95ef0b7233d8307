import Worksheet.Proofs.Forest.Accounting
import Worksheet.Proofs.Forest.Attachment
import Worksheet.Proofs.Forest.Census

/-!
# Moves and removals

A node that is moved leaves one place and takes another one, and a node that is removed takes
along what is below it.  Here is what such a step shows at every node of the forest: at the
two ends of the links that change, at what had to make room, and at all the others.
-/

namespace Worksheet

namespace Node

/-- The first node becomes the second one when a child of it goes away: an operand leaves its
place free, a member leaves the others in order. -/
inductive Forsakes (child : Handle) : Node → Node → Prop where
  | binary (operator : Operator) (left right : Option Handle) :
      Forsakes child (.binary operator left right)
        (.binary operator (left.filter (· ≠ child)) (right.filter (· ≠ child)))
  | group (members : List Handle) :
      Forsakes child (.group members) (.group (members.filter (· ≠ child)))

theorem forsakes_without {node : Node} {child : Handle} (member : child ∈ node.children) :
    Forsakes child node (node.without child) := by
  cases node with
  | binary operator left right => exact .binary operator left right
  | group members => exact .group members
  | _ => cases member

@[simp]
theorem operand?_without (node : Node) (side : Side) (child : Handle) :
    (node.without child).operand? side = (node.operand? side).filter (· ≠ child) := by
  cases node <;> cases side <;> rfl

end Node

namespace Forest

inductive Place where
  | operand (side : Side)
  | last

/-- The first node becomes the second one when it is given a child at the place, which is its
child nowhere else. -/
inductive Place.Takes (child : Handle) : Place → Node → Node → Prop where
  | left (operator : Operator) (left right : Option Handle) :
      Takes child (.operand .left) (.binary operator left right)
        (.binary operator (some child) (right.filter (· ≠ child)))
  | right (operator : Operator) (left right : Option Handle) :
      Takes child (.operand .right) (.binary operator left right)
        (.binary operator (left.filter (· ≠ child)) (some child))
  | last (members : List Handle) :
      Takes child .last (.group members) (.group (members.filter (· ≠ child) ++ [child]))

/-- The node that has to make room for another one at the place. -/
def occupant (forest : Forest) (parent : Handle) : Place → Option Handle
  | .operand side => forest.operand? parent side
  | .last => none

/-- What a move shows.  Only the new parent, the former one, the node and what has to make
room for it can tell that it has happened. -/
structure Moves (forest : Forest) (child parent : Handle) (place : Place) (after : Forest) :
    Prop where
  parent?_child : after.parent? child = some parent
  taken : ∃ before content, forest.node? parent = some before ∧
    after.node? parent = some content ∧ place.Takes child before content
  /-- The node is a child once, and of nothing else. -/
  once : ∀ other content, after.node? other = some content → child ∈ content.children →
    other = parent ∧ content.children.count child = 1
  forsaken : ∀ former, forest.parent? child = some former → former ≠ parent →
    ∃ before content, forest.node? former = some before ∧
      after.node? former = some content ∧ before.Forsakes child content
  /-- What had to make room is left without a parent. -/
  displaced : ∀ other, forest.occupant parent place = some other → other ≠ child →
    after.isLive other = true ∧ after.parent? other = none
  live : ∀ node, after.isLive node = forest.isLive node
  contents : ∀ other, other ≠ parent → forest.parent? child ≠ some other →
    after.node? other = forest.node? other
  parents : ∀ other, other ≠ child → forest.occupant parent place ≠ some other →
    after.parent? other = forest.parent? other

/-- What a removal shows. -/
structure Removes (forest : Forest) (node : Handle) (after : Forest) : Prop where
  /-- The node and its descendants were there, and nothing else stops existing. -/
  live_of_below : ∀ other, forest.Below other node → forest.isLive other = true
  live_iff : ∀ other, after.isLive other = true ↔
    forest.isLive other = true ∧ ¬forest.Below other node
  size : ∃ gone : List Handle, gone.Nodup ∧ (∀ other, other ∈ gone ↔ forest.Below other node) ∧
    after.size + gone.length = forest.size
  forsaken : ∀ former, forest.parent? node = some former →
    ∃ before content, forest.node? former = some before ∧
      after.node? former = some content ∧ before.Forsakes node content
  contents : ∀ other, ¬forest.Below other node → forest.parent? node ≠ some other →
    after.node? other = forest.node? other
  parents : ∀ other, ¬forest.Below other node → after.parent? other = forest.parent? other

variable {forest after : Forest} {child parent binary group node : Handle} {place : Place}

/-! ### Moves -/

theorem Place.Takes.count {before content : Node} (takes : place.Takes child before content) :
    content.children.count child = 1 := by
  have absent (operand : Option Handle) :
      (operand.filter (· ≠ child)).toList.count child = 0 := by
    refine List.count_eq_zero_of_not_mem fun member => ?_
    obtain ⟨-, different⟩ := Option.filter_eq_some_iff.mp (Option.mem_toList.mp member)
    simp at different
  cases takes with
  | left operator left right =>
      rw [Node.children, List.count_append, absent, Option.toList_some, List.count_singleton_self]
  | right operator left right =>
      rw [Node.children, List.count_append, absent, Option.toList_some, List.count_singleton_self]
  | last members =>
      rw [Node.children, List.count_append, List.count_singleton_self,
        List.count_eq_zero_of_not_mem (by simp)]

theorem Linked.parent?_of_occupant (linked : forest.Linked)
    (stood : forest.occupant parent place = some node) : forest.parent? node = some parent := by
  cases place with
  | operand side =>
      obtain ⟨content, located, here⟩ := operand?_eq_some_iff.mp stood
      exact linked.parent?_of_child node parent
        ⟨content, located, Node.mem_children_of_operand? here⟩
  | last => cases stood

/-- A move is known from what it shows at each node: all but the new parent forget the child,
and its parent and that of the node that makes room are the only ones to change. -/
theorem Linked.moves_of_shown (linked : forest.Linked) {before content : Node}
    (above : forest.node? parent = some before) (takes : place.Takes child before content)
    (contents : ∀ other, after.node? other =
      if other = parent then some content else (forest.node? other).map (·.without child))
    (parents : ∀ other, after.parent? other =
      if other = child then some parent
      else if forest.occupant parent place = some other then none else forest.parent? other) :
    forest.Moves child parent place after := by
  have live (node : Handle) : after.isLive node = forest.isLive node := by
    rw [Bool.eq_iff_iff, isLive_iff, isLive_iff, contents]
    split
    next here => simp [here, above]
    next => simp
  constructor
  case parent?_child => rw [parents, if_pos rfl]
  case taken => exact ⟨before, content, above, by rw [contents, if_pos rfl], takes⟩
  case once =>
    intro other content' located member
    rw [contents] at located
    split at located
    next here =>
      cases located
      exact ⟨here, takes.count⟩
    next =>
      obtain ⟨former, -, rfl⟩ := Option.map_eq_some_iff.mp located
      simp at member
  case forsaken =>
    intro former up different
    obtain ⟨lists, located, member⟩ := linked.isChild_iff.mpr up
    refine ⟨lists, lists.without child, located, ?_, Node.forsakes_without member⟩
    rw [contents, if_neg different, located, Option.map_some]
  case displaced =>
    intro other stood different
    refine ⟨?_, by rw [parents, if_neg different, if_pos stood]⟩
    rw [live]
    exact isLive_iff.mpr (node?_of_parent? (linked.parent?_of_occupant stood))
  case live => exact live
  case contents =>
    intro other different apart
    rw [contents, if_neg different, linked.map_without apart]
  case parents =>
    intro other different stays
    rw [parents, if_neg different, if_neg stays]

theorem Moves.store (moves : forest.Moves child parent place after) (assignment : Handle)
    (value : Option Number) : forest.Moves child parent place (after.store assignment value) := by
  obtain ⟨above, taken, once, forsaken, displaced, live, contents, parents⟩ := moves
  have same (node : Handle) : (after.store assignment value).isLive node = after.isLive node := by
    rw [isLive, cells_store, isLive]
  constructor <;> simp only [node?_store, parent?_store, same] <;> assumption

theorem takes_withOperand (operator : Operator) (left right : Option Handle) (side : Side)
    (child : Handle) :
    Place.Takes child (.operand side) (.binary operator left right)
      (((Node.binary operator left right).without child).withOperand side (some child)) := by
  cases side with
  | left => exact .left operator left right
  | right => exact .right operator left right

theorem Linked.moves_link (linked : forest.Linked) (side : Side)
    (admits : forest.Admits binary child) :
    forest.Moves child binary (.operand side) (forest.link binary side (some child)) := by
  obtain ⟨⟨operator, left, right, above⟩, ⟨lower, below, -⟩, -⟩ := admits
  have takes := takes_withOperand operator left right side child
  rw [Forest.link]
  split
  next there =>
    -- The node is there already, so that its parent would take it back unchanged.
    obtain ⟨up, stood⟩ := there
    obtain ⟨content, located, once⟩ := linked.count_of_parent? child binary up
    cases above.symm.trans located
    obtain ⟨_, located, here⟩ := operand?_eq_some_iff.mp stood
    cases above.symm.trans located
    rw [Node.without_of_operand? here once, Node.withOperand_withOperand,
      Node.withOperand_of_operand? here] at takes
    refine linked.moves_of_shown above takes (fun other => ?_) (fun other => ?_)
    · split
      next same => rw [same, above]
      next different =>
        refine (linked.map_without fun up' => different ?_).symm
        cases up.symm.trans up'
        rfl
    · split
      next same => rw [same, up]
      next different =>
        rw [occupant, stood, if_neg]
        rintro same
        exact different (Option.some.inj same).symm
  next =>
    have found : (forest.detach child).node? child = some (lower.without child) := by
      rw [linked.node?_detach, below, Option.map_some]
    refine linked.moves_of_shown above takes (fun other => ?_) (fun other => ?_)
    · rw [node?_place, linked.node?_detach, linked.node?_detach, above]
      rfl
    · rw [parent?_place_some found, parent?_detach]
      split
      next => rfl
      next different =>
        have stands_iff : (forest.detach child).operand? binary side = some other ↔
            forest.operand? binary side = some other := by
          rw [operand?, operand?, linked.node?_detach, above, Option.map_some, Option.bind_some,
            Option.bind_some, Node.operand?_without, Option.filter_eq_some_iff]
          simp [different]
        exact if_congr stands_iff rfl rfl

/-- A node that is moved to the end of a group, which it may come from. -/
theorem Linked.moves_adopt (linked : forest.Linked) {members : List Handle} {lower : Node}
    (above : forest.node? group = some (.group members)) (below : forest.node? child = some lower)
    (single : lower.isGroup = false) :
    forest.Moves child group .last (forest.adopt group child) := by
  have different : child ≠ group := by
    rintro rfl
    cases above.symm.trans below
    cases single
  have located : (forest.detach child).node? group = some (.group (members.filter (· ≠ child))) := by
    rw [linked.node?_detach, above]
    rfl
  have found : (forest.detach child).node? child = some (lower.without child) := by
    rw [linked.node?_detach, below, Option.map_some]
  refine linked.moves_of_shown above (.last members) (fun other => ?_) (fun other => ?_)
  · rw [Forest.adopt, node?_hang located, linked.node?_detach]
    rfl
  · rw [Forest.adopt, parent?_hang found different, parent?_detach]
    split
    next => rfl
    next => rfl

/-! ### Removals -/

theorem Linked.mem_sweep_detach_iff (linked : forest.Linked) {other : Handle} :
    other ∈ (forest.detach node).sweep node ↔ forest.Below other node :=
  (linked.detach node).mem_sweep.trans linked.below_detach_iff

theorem Linked.node?_removeTree (linked : forest.Linked) {other : Handle}
    (apart : ¬forest.Below other node) :
    (forest.removeTree node).node? other = (forest.node? other).map (·.without node) := by
  rw [Forest.removeTree, node?_releaseAll, if_neg (mt linked.mem_sweep_detach_iff.mp apart),
    linked.node?_detach]

theorem Linked.isLive_removeTree_iff (linked : forest.Linked) {other : Handle} :
    (forest.removeTree node).isLive other = true ↔
      forest.isLive other = true ∧ ¬forest.Below other node := by
  by_cases below : forest.Below other node
  · rw [isLive_iff, linked.node?_removeTree_of_below below]
    simp [below]
  · rw [isLive_iff, isLive_iff, linked.node?_removeTree below]
    simp [below]

theorem Linked.size_removeTree (linked : forest.Linked) {content : Node}
    (located : forest.node? node = some content) :
    (forest.removeTree node).size + ((forest.detach node).sweep node).length = forest.size := by
  have distinct : ((forest.removeTree node).nodes ++ (forest.detach node).sweep node).Nodup := by
    refine List.nodup_append'.mpr
      ⟨Pool.nodup_handles _, (linked.detach node).nodup_sweep node, fun other stays swept => ?_⟩
    exact (linked.isLive_removeTree_iff.mp (mem_nodes_iff.mp stays)).2
      (linked.mem_sweep_detach_iff.mp swept)
  have counted : forest.size =
      ((forest.removeTree node).nodes ++ (forest.detach node).sweep node).length := by
    refine linked.size_eq_length distinct fun other => ?_
    rw [List.mem_append, mem_nodes_iff, linked.isLive_removeTree_iff, linked.mem_sweep_detach_iff]
    by_cases below : forest.Below other node
    · simp [below, isLive_iff.mpr (linked.live_of_below located below)]
    · simp [below]
  rw [counted, List.length_append, (linked.removeTree node).size_eq_length_nodes]

theorem Linked.removes_removeTree (linked : forest.Linked) {content : Node}
    (located : forest.node? node = some content) :
    forest.Removes node (forest.removeTree node) := by
  constructor
  case live_of_below =>
    exact fun other below => isLive_iff.mpr (linked.live_of_below located below)
  case live_iff => exact fun other => linked.isLive_removeTree_iff
  case size =>
    exact ⟨(forest.detach node).sweep node, (linked.detach node).nodup_sweep node,
      fun other => linked.mem_sweep_detach_iff, linked.size_removeTree located⟩
  case forsaken =>
    intro former up
    obtain ⟨lists, there, member⟩ := linked.isChild_iff.mpr up
    refine ⟨lists, lists.without node, there, ?_, Node.forsakes_without member⟩
    rw [linked.node?_removeTree (linked.not_below_of_isChild ⟨lists, there, member⟩), there,
      Option.map_some]
  case contents =>
    intro other apart elsewhere
    rw [linked.node?_removeTree apart, linked.map_without elsewhere]
  case parents =>
    intro other apart
    rw [Forest.removeTree, parent?_releaseAll, if_neg (mt linked.mem_sweep_detach_iff.mp apart),
      parent?_detach, if_neg]
    rintro rfl
    exact apart .refl

/-! ### All attachments and removals -/

/-- A node that is moved has its new place and no other, and a node that is removed goes with all
that is below it.  Only its parents, and what makes room for it, can tell. -/
theorem Reachable.moves_and_removals (reachable : forest.Reachable)
    (child parent node : Handle) :
    (forest.setLeft parent (some child) = .ok after →
      forest.Moves child parent (.operand .left) after) ∧
    (forest.setRight parent (some child) = .ok after →
      forest.Moves child parent (.operand .right) after) ∧
    (forest.groupPush parent child = .ok after → forest.Moves child parent .last after) ∧
    (forest.setParent child (some parent) = .ok after →
      (∃ members, forest.node? parent = some (.group members)) ∧
          forest.Moves child parent .last after ∨
        (∃ operator right, forest.node? parent = some (.binary operator none right)) ∧
          forest.Moves child parent (.operand .left) after ∨
        (∃ operator left, forest.node? parent = some (.binary operator (some left) none)) ∧
          forest.Moves child parent (.operand .right) after) ∧
    (forest.remove node = .ok after → forest.Removes node after) := by
  have linked := reachable.linked
  have setLeft (done : forest.setLeft parent (some child) = .ok after) :
      forest.Moves child parent (.operand .left) after := by
    obtain ⟨admits, ⟨-, -, -, -, value, -, rfl⟩ | ⟨-, rfl⟩⟩ := linked.setLeft_eq_ok_iff.mp done
    · cases value with
      | none => exact linked.moves_link .left admits
      | some number => exact (linked.moves_link .left admits).store parent (some number)
    · exact linked.moves_link .left admits
  have setRight (done : forest.setRight parent (some child) = .ok after) :
      forest.Moves child parent (.operand .right) after := by
    obtain ⟨admits, ⟨-, value, -, rfl⟩ | ⟨-, rfl⟩⟩ := linked.setRight_eq_ok_iff.mp done
    · exact (linked.moves_link .right admits).store parent value
    · exact linked.moves_link .right admits
  have groupPush (done : forest.groupPush parent child = .ok after) :
      forest.Moves child parent .last after := by
    obtain ⟨⟨members, above⟩, ⟨lower, below, single⟩, rfl⟩ := linked.groupPush_eq_ok_iff.mp done
    exact linked.moves_adopt above below single
  refine ⟨setLeft, setRight, groupPush, fun done => ?_, fun done => ?_⟩
  · obtain ⟨-, ⟨above, done⟩ | ⟨above, done⟩ | ⟨above, done⟩⟩ :=
      linked.setParent_eq_ok_iff.mp done
    · exact .inl ⟨above, groupPush done⟩
    · exact .inr (.inl ⟨above, setLeft done⟩)
    · exact .inr (.inr ⟨above, setRight done⟩)
  · obtain ⟨content, found, done⟩ := bind_eq_ok_iff.mp done
    cases done
    exact linked.removes_removeTree (node_eq_ok_iff.mp found)

/-- An operand of a sum displaces that of a product, or the sum is removed with its operands. -/
theorem Reachable.moves_and_removals_sum :
    let forest := (⟨.empty, .empty⟩ : Forest).run
      [.constant (.int 1), .constant (.int 2), .binary .add (some ⟨0, 0⟩) (some ⟨1, 0⟩),
        .constant (.int 3), .binary .multiply (some ⟨3, 0⟩) none]
    let moved := forest.run [.setLeft ⟨4, 0⟩ (some ⟨0, 0⟩)]
    let removed := forest.run [.remove ⟨2, 0⟩]
    forest.Reachable ∧ forest.setLeft ⟨4, 0⟩ (some ⟨0, 0⟩) = .ok moved ∧
      forest.Moves ⟨0, 0⟩ ⟨4, 0⟩ (.operand .left) moved ∧
      moved.node? ⟨2, 0⟩ = some (.binary .add none (some ⟨1, 0⟩)) ∧
      moved.isLive ⟨3, 0⟩ = true ∧ moved.parent? ⟨3, 0⟩ = none ∧
      forest.remove ⟨2, 0⟩ = .ok removed ∧ forest.Removes ⟨2, 0⟩ removed ∧
      removed.nodes = [⟨3, 0⟩, ⟨4, 0⟩] := by
  intro forest moved removed
  have reachable : forest.Reachable := ⟨_, _, rfl⟩
  have set : forest.setLeft ⟨4, 0⟩ (some ⟨0, 0⟩) = .ok moved := by
    have answer : (forest.perform (.setLeft ⟨4, 0⟩ (some ⟨0, 0⟩))).1 = .ok none := by
      decide +kernel
    exact (kept_eq_ok_iff.mp (Prod.ext answer rfl)).1
  have gone : forest.remove ⟨2, 0⟩ = .ok removed := by
    have answer : (forest.perform (.remove ⟨2, 0⟩)).1 = .ok none := by decide +kernel
    exact (kept_eq_ok_iff.mp (Prod.ext answer rfl)).1
  have moves := (reachable.moves_and_removals ⟨0, 0⟩ ⟨4, 0⟩ ⟨2, 0⟩).1 set
  obtain ⟨live, root⟩ := moves.displaced ⟨3, 0⟩ (by decide +kernel) (by decide)
  obtain ⟨-, -, -, -, remove⟩ := reachable.moves_and_removals ⟨0, 0⟩ ⟨4, 0⟩ ⟨2, 0⟩
  exact ⟨reachable, set, moves, by decide +kernel, live, root, gone, remove gone,
    by decide +kernel⟩

end Forest

end Worksheet
