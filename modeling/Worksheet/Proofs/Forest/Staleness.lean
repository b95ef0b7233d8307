import Worksheet.Proofs.Forest.Operation
import Worksheet.Proofs.Pool.Generations

/-!
# Removed handles

An operation fills slots that are empty, or it empties slots and moves each of them on by
one generation.  So a handle whose node is gone finds nothing until its slot has been
through all generations.
-/

namespace Worksheet

namespace Forest

variable {forest forest' : Forest}

/-! ### Steps on slots -/

theorem steady_changeNode (forest : Forest) (node : Handle) (change : Node → Node) :
    forest.cells.Steady (forest.changeNode node change).cells :=
  Pool.steady_modify forest.cells node _

theorem steady_setParentLink (forest : Forest) (node : Handle) (parent : Option Handle) :
    forest.cells.Steady (forest.setParentLink node parent).cells :=
  Pool.steady_modify forest.cells node _

theorem steady_store (forest : Forest) (assignment : Handle) (value : Option Number) :
    forest.cells.Steady (forest.store assignment value).cells := by
  rw [cells_store]
  exact .refl forest.cells

theorem steady_detach (forest : Forest) (node : Handle) :
    forest.cells.Steady (forest.detach node).cells := by
  cases above : forest.parent? node with
  | none =>
      rw [detach_of_root above]
      exact .refl forest.cells
  | some parent =>
      rw [cells_detach_of_parent? above]
      exact (steady_changeNode forest parent _).trans (steady_setParentLink _ node none)

theorem steady_detachAll (forest : Forest) (nodes : List Handle) :
    forest.cells.Steady (nodes.foldl detach forest).cells := by
  induction nodes generalizing forest with
  | nil => exact .refl forest.cells
  | cons node rest inductionHypothesis =>
      exact (steady_detach forest node).trans (inductionHypothesis (forest.detach node))

theorem steady_detachMembers (forest : Forest) (group : Handle) :
    forest.cells.Steady (forest.detachMembers group).cells := by
  unfold detachMembers
  split
  next members located => exact steady_detachAll forest members
  next => exact .refl forest.cells

theorem steady_place (forest : Forest) (binary : Handle) (side : Side) (child : Option Handle) :
    forest.cells.Steady (forest.place binary side child).cells := by
  have orphaned (operand : Option Handle) :
      forest.cells.Steady (forest.orphan operand).cells := by
    cases operand with
    | none => exact .refl forest.cells
    | some node => exact steady_setParentLink forest node none
  have placed := (orphaned (forest.operand? binary side)).trans
    (steady_changeNode _ binary (·.withOperand side child))
  cases child with
  | none => exact placed
  | some node => exact placed.trans (steady_setParentLink _ node (some binary))

theorem steady_link (forest : Forest) (binary : Handle) (side : Side) (child : Option Handle) :
    forest.cells.Steady (forest.link binary side child).cells := by
  cases child with
  | none => exact steady_place forest binary side none
  | some node =>
      rw [link]
      split
      next => exact .refl forest.cells
      next => exact (steady_detach forest node).trans (steady_place _ binary side (some node))

theorem steady_linkBoth (forest : Forest) (operator : Operator) (binary : Handle)
    (left right : Option Handle) (value : Option Number) :
    forest.cells.Steady (forest.linkBoth operator binary left right value).cells := by
  have linked := (steady_link forest binary .left left).trans (steady_link _ binary .right right)
  rw [linkBoth]
  split
  next => exact linked.trans (steady_store _ binary value)
  next => exact linked

theorem steady_adopt (forest : Forest) (group child : Handle) :
    forest.cells.Steady (forest.adopt group child).cells :=
  ((steady_detach forest child).trans (steady_changeNode _ group _)).trans
    (steady_setParentLink _ child (some group))

theorem steady_adoptAll (forest : Forest) (group : Handle) (members : List Handle) :
    forest.cells.Steady
      (members.foldl (fun forest member => forest.adopt group member) forest).cells := by
  induction members generalizing forest with
  | nil => exact .refl forest.cells
  | cons member rest inductionHypothesis =>
      exact (steady_adopt forest group member).trans (inductionHypothesis _)

theorem sheds_removeTree (forest : Forest) (node : Handle) :
    forest.cells.Sheds (forest.removeTree node).cells := by
  rw [removeTree, cells_releaseAll]
  exact (steady_detach forest node).sheds.trans (Pool.sheds_eraseAll _ _)

/-! ### Making nodes -/

/-- A step that makes a node keeps every slot, and one that is refused empties again what
it has filled. -/
structure Makes (forest : Forest) (outcome : Except Fault Handle × Forest) : Prop where
  settles : forest.cells.Settles outcome.2.cells
  made : ∀ node, outcome.1 = .ok node →
    forest.cells.Keeps outcome.2.cells ∧ outcome.2.isLive node = true

theorem makes_refused {fault : Fault} (settles : forest.cells.Settles forest'.cells) :
    forest.Makes (.error fault, forest') := by
  refine ⟨settles, fun node done => ?_⟩
  cases done

theorem makes_made {node : Handle} (keeps : forest.cells.Keeps forest'.cells)
    (live : forest'.isLive node = true) : forest.Makes (.ok node, forest') := by
  refine ⟨keeps.settles, fun other done => ?_⟩
  cases done
  exact ⟨keeps, live⟩

theorem Linked.keeps_allocate (linked : forest.Linked) (node : Node) :
    forest.cells.Keeps (forest.allocate node).2.cells :=
  Pool.keeps_insert linked.formed ⟨node, none⟩

theorem Linked.isLive_allocate (linked : forest.Linked) (node : Node) :
    (forest.allocate node).2.isLive (forest.allocate node).1 = true := by
  apply isLive_iff.mpr
  exact ⟨node, node?_allocate_self linked.formed node⟩

theorem Linked.makes_allocate (linked : forest.Linked) (node : Node) :
    forest.Makes (.ok (forest.allocate node).1, (forest.allocate node).2) :=
  makes_made (linked.keeps_allocate node) (linked.isLive_allocate node)

theorem Linked.makes_addVariable (linked : forest.Linked) {name : String}
    {value : Option Number} {made : Handle × Forest}
    (done : forest.addVariable name value = .ok made) : forest.Makes (.ok made.1, made.2) := by
  obtain ⟨settled, -, done⟩ := bind_eq_ok_iff.mp done
  cases done
  have allocated := (linked.withTable settled.2).makes_allocate (.variable name)
  exact ⟨allocated.settles, allocated.made⟩

theorem Linked.makes_addBinary (linked : forest.Linked) (operator : Operator)
    (left right : Option Handle) : forest.Makes (forest.addBinary operator left right) := by
  have adds := forest.addsBinary operator left right
  generalize forest.addBinary operator left right = result at adds
  have still := (Pool.Steady.refl forest.cells).keeps.settles
  cases adds with
  | twice => exact makes_refused still
  | unprepared => exact makes_refused still
  | @refused value table fault node allocated apart prepared new =>
      cases new
      have keeps := (linked.withTable table).keeps_allocate (.binary operator none none)
      exact makes_refused (keeps.settles.sheds (Pool.sheds_erase _ _))
  | @made value table node allocated apart prepared new _ _ =>
      cases new
      have before := linked.withTable table
      have keeps := before.keeps_allocate (.binary operator none none)
      have steady := steady_linkBoth
        (({ forest with table } : Forest).allocate (.binary operator none none)).2 operator
        (({ forest with table } : Forest).allocate (.binary operator none none)).1 left right
        value
      exact makes_made (keeps.trans steady.keeps)
        (steady.keeps.contains (before.isLive_allocate _))

theorem Linked.makes_addGroup (linked : forest.Linked) (members : List Handle) :
    forest.Makes (forest.addGroup members) := by
  have keeps := linked.keeps_allocate (.group [])
  rw [Forest.addGroup, addEmptyGroup]
  dsimp only
  split
  next => exact makes_refused (keeps.settles.sheds (Pool.sheds_erase _ _))
  next =>
    have steady := steady_adoptAll (forest.allocate (.group [])).2
      (forest.allocate (.group [])).1 members
    exact makes_made (keeps.trans steady.keeps)
      (steady.keeps.contains (linked.isLive_allocate _))

theorem Linked.makes_graft (linked : forest.Linked) (expr : Expr) :
    forest.Makes (forest.graft expr) := by
  induction expr generalizing forest with
  | number value => exact linked.makes_allocate (.constant value)
  | «variable» name =>
      rw [Forest.graft]
      split
      next => exact makes_refused (Pool.Steady.refl forest.cells).keeps.settles
      next done => exact linked.makes_addVariable done
  | binary operator left right leftHypothesis rightHypothesis =>
      rw [Forest.graft]
      have first := leftHypothesis linked
      have middle := linked.graft left
      split
      next refused =>
        rw [refused] at first
        exact makes_refused first.settles
      next low _ grafted =>
        rw [grafted] at first middle
        have keeps := (first.made low rfl).1
        have second := rightHypothesis middle
        have last := middle.graft right
        split
        next refused =>
          rw [refused] at second
          exact makes_refused ((keeps.then second.settles).sheds (sheds_removeTree _ low))
        next high _ graftedToo =>
          rw [graftedToo] at second last
          have keeps := keeps.trans (second.made high rfl).1
          have joined := last.makes_addBinary operator (some low) (some high)
          split
          next refused =>
            rw [refused] at joined
            exact makes_refused (((keeps.then joined.settles).sheds
              (sheds_removeTree _ low)).sheds (sheds_removeTree _ high))
          next done =>
            refine ⟨keeps.then joined.settles, fun node made => ?_⟩
            obtain ⟨kept, live⟩ := joined.made node made
            exact ⟨keeps.trans kept, live⟩

/-! ### Changing nodes -/

theorem steady_of_setLeft {binary : Handle} {child : Option Handle}
    (done : forest.setLeft binary child = .ok forest') :
    forest.cells.Steady forest'.cells := by
  obtain ⟨table, same⟩ := cells_of_setLeft done
  rw [same]
  exact steady_link { forest with table } binary .left child

theorem steady_of_setRight {binary : Handle} {child : Option Handle}
    (done : forest.setRight binary child = .ok forest') :
    forest.cells.Steady forest'.cells := by
  obtain ⟨table, same⟩ := cells_of_setRight done
  rw [same]
  exact steady_link { forest with table } binary .right child

theorem steady_of_groupPush {group child : Handle}
    (done : forest.groupPush group child = .ok forest') :
    forest.cells.Steady forest'.cells := by
  obtain ⟨_, -, done⟩ := bind_eq_ok_iff.mp done
  obtain ⟨_, -, done⟩ := bind_eq_ok_iff.mp done
  cases done
  exact steady_adopt forest group child

theorem steady_of_groupRemove {group child : Handle} {answer : Bool × Forest}
    (done : forest.groupRemove group child = .ok answer) :
    forest.cells.Steady answer.2.cells := by
  obtain ⟨_, -, done⟩ := bind_eq_ok_iff.mp done
  obtain ⟨_, -, done⟩ := bind_eq_ok_iff.mp done
  split at done
  next =>
    cases done
    exact steady_detach forest child
  next =>
    cases done
    exact .refl forest.cells

theorem steady_of_groupClear {group : Handle} (done : forest.groupClear group = .ok forest') :
    forest.cells.Steady forest'.cells := by
  obtain ⟨_, -, done⟩ := bind_eq_ok_iff.mp done
  cases done
  exact steady_detachMembers forest group

theorem steady_of_setParent {child : Handle} {parent : Option Handle}
    (done : forest.setParent child parent = .ok forest') :
    forest.cells.Steady forest'.cells := by
  rcases setParent_cases done with ⟨-, rfl⟩ | ⟨above, -, pushed | setLeft | setRight⟩
  · exact steady_detach forest child
  · exact steady_of_groupPush pushed
  · exact steady_of_setLeft setLeft
  · exact steady_of_setRight setRight

theorem sheds_of_remove {node : Handle} (done : forest.remove node = .ok forest') :
    forest.cells.Sheds forest'.cells := by
  obtain ⟨_, -, done⟩ := bind_eq_ok_iff.mp done
  cases done
  exact sheds_removeTree forest node

/-! ### Operations -/

theorem settles_kept {outcome : Except Fault Forest}
    (step : ∀ forest', outcome = .ok forest' → forest.cells.Settles forest'.cells) :
    forest.cells.Settles (kept forest outcome).2.cells :=
  kept_induction (motive := fun after => forest.cells.Settles after.cells)
    (Pool.Steady.refl forest.cells).keeps.settles step

/-- One operation empties no slot twice, and fills none that it has emptied. -/
theorem Linked.settles_perform (linked : forest.Linked) (operation : Operation) :
    forest.cells.Settles (forest.perform operation).2.cells := by
  have same := (Pool.Steady.refl forest.cells).keeps.settles
  cases operation with
  | constant value => exact (linked.makes_allocate _).settles
  | «variable» name value =>
      rw [Forest.perform]
      split
      next => exact same
      next done => exact (linked.makes_addVariable done).settles
  | binary operator left right => exact (linked.makes_addBinary operator left right).settles
  | assignment target source =>
      exact (linked.makes_addBinary .assign (some target) (some source)).settles
  | emptyGroup => exact (linked.makes_allocate _).settles
  | group members => exact (linked.makes_addGroup members).settles
  | graft expr => exact (linked.makes_graft expr).settles
  | setLeft binary child =>
      exact settles_kept fun _ done => (steady_of_setLeft done).keeps.settles
  | setRight binary child =>
      exact settles_kept fun _ done => (steady_of_setRight done).keeps.settles
  | setParent child parent =>
      exact settles_kept fun _ done => (steady_of_setParent done).keeps.settles
  | groupPush group child =>
      exact settles_kept fun _ done => (steady_of_groupPush done).keeps.settles
  | groupRemove group child =>
      refine settles_kept fun forest' done => ?_
      obtain ⟨answer, removed, rfl⟩ := map_eq_ok_iff.mp done
      exact (steady_of_groupRemove removed).keeps.settles
  | groupClear group =>
      exact settles_kept fun _ done => (steady_of_groupClear done).keeps.settles
  | remove node => exact settles_kept fun _ done => (sheds_of_remove done).settles
  | clear => exact (Pool.sheds_eraseAll forest.cells _).settles
  | value node =>
      obtain ⟨value, table, valued⟩ := forest.value_eq node
      rw [Forest.perform, valued]
      exact same
  | tryValue node =>
      obtain ⟨value, table, valued⟩ := forest.tryValue_eq node
      rw [Forest.perform, valued]
      exact same
  | table call =>
      refine settles_kept fun forest' done => ?_
      obtain ⟨table, -, rfl⟩ := map_eq_ok_iff.mp done
      exact same

theorem Makes.of_settled {outcome : Except Fault Handle × Forest} (makes : forest.Makes outcome)
    {node : Handle} (answered : (settled outcome).1 = .ok (some node)) :
    forest.cells.Keeps outcome.2.cells ∧ outcome.2.isLive node = true := by
  apply makes.made
  obtain ⟨answer, forest'⟩ := outcome
  cases answer with
  | error fault => cases answered
  | ok other =>
      cases answered
      rfl

theorem fst_kept_ne {outcome : Except Fault Forest} {node : Handle} :
    (kept forest outcome).1 ≠ .ok (some node) := by
  intro answered
  cases outcome <;> cases answered

/-- An operation that answers with a node keeps every slot, and the node is live. -/
theorem Linked.keeps_of_answer (linked : forest.Linked) {operation : Operation} {node : Handle}
    (answered : (forest.perform operation).1 = .ok (some node)) :
    forest.cells.Keeps (forest.perform operation).2.cells ∧
      (forest.perform operation).2.isLive node = true := by
  cases operation with
  | constant value => exact (linked.makes_allocate _).of_settled answered
  | «variable» name value =>
      rw [Forest.perform] at answered ⊢
      split at answered
      next => cases answered
      next done =>
        cases answered
        exact (linked.makes_addVariable done).made node rfl
  | binary operator left right =>
      exact (linked.makes_addBinary operator left right).of_settled answered
  | assignment target source =>
      exact (linked.makes_addBinary .assign (some target) (some source)).of_settled answered
  | emptyGroup => exact (linked.makes_allocate _).of_settled answered
  | group members => exact (linked.makes_addGroup members).of_settled answered
  | graft expr => exact (linked.makes_graft expr).of_settled answered
  | value handle =>
      rw [Forest.perform] at answered
      cases valued : (forest.value handle).1 <;> rw [valued] at answered <;> cases answered
  | tryValue handle =>
      rw [Forest.perform] at answered
      cases valued : (forest.tryValue handle).1 <;> rw [valued] at answered <;> cases answered
  | clear => cases answered
  | _ => exact absurd answered fst_kept_ne

/-! ### Runs -/

/-- How often a slot is released while operations are performed. -/
def releases (forest : Forest) (index : Nat) : List Operation → Nat
  | [] => 0
  | operation :: rest =>
      let forest' := (forest.perform operation).2
      if forest'.cells.generation index = forest.cells.generation index then
        forest'.releases index rest
      else forest'.releases index rest + 1

theorem run_append (forest : Forest) (first second : List Operation) :
    forest.run (first ++ second) = (forest.run first).run second :=
  List.foldl_append

theorem releases_append (forest : Forest) (index : Nat) (first second : List Operation) :
    forest.releases index (first ++ second) =
      forest.releases index first + (forest.run first).releases index second := by
  induction first generalizing forest with
  | nil => exact (Nat.zero_add _).symm
  | cons operation rest inductionHypothesis =>
      have later := inductionHypothesis (forest.perform operation).2
      rw [List.cons_append, releases, releases, later]
      split
      next => rfl
      next => exact Nat.add_right_comm _ _ 1

/-- A slot moves on by as many generations as it is released times. -/
theorem Linked.generation_run (linked : forest.Linked) (index : Nat)
    (operations : List Operation) :
    (forest.run operations).cells.generation index =
      forest.cells.generation index + UInt32.ofNat (forest.releases index operations) := by
  induction operations generalizing forest with
  | nil => exact (UInt32.add_zero _).symm
  | cons operation rest inductionHypothesis =>
      have later := inductionHypothesis (linked.perform operation)
      change ((forest.perform operation).2.run rest).cells.generation index = _
      rw [later, releases]
      rcases linked.settles_perform operation index with ⟨same, -⟩ | ⟨-, moved⟩
      · rw [if_pos same, same]
      · have different : forest.cells.generation index + 1 ≠ forest.cells.generation index := by
          simp
        rw [moved, if_neg different, UInt32.ofNat_add, UInt32.add_assoc,
          UInt32.add_comm 1]
        rfl

/-- What is live stays so until its slot is released. -/
theorem Linked.isLive_run (linked : forest.Linked) {handle : Handle}
    (live : forest.isLive handle = true) {operations : List Operation}
    (untouched : forest.releases handle.index operations = 0) :
    (forest.run operations).isLive handle = true := by
  induction operations generalizing forest with
  | nil => exact live
  | cons operation rest inductionHypothesis =>
      rw [releases] at untouched
      split at untouched
      next same =>
        apply inductionHypothesis (linked.perform operation) _ untouched
        obtain ⟨filled, generation⟩ := Pool.contains_iff.mp live
        rcases linked.settles_perform operation handle.index with ⟨-, kept⟩ | ⟨-, moved⟩
        · exact Pool.contains_iff.mpr ⟨kept filled, same.trans generation⟩
        · simp [moved] at same
      next => cases untouched

/-- The slot of a removed handle is in another generation, unless it has been through all
of them. -/
theorem Linked.generation_ne_of_freed (linked : forest.Linked) {handle : Handle}
    (live : forest.isLive handle = true) {first second : List Operation}
    (freed : (forest.run first).isLive handle = false)
    (few : forest.releases handle.index (first ++ second) < 2 ^ 32) :
    (forest.run (first ++ second)).cells.generation handle.index ≠ handle.generation := by
  have released : forest.releases handle.index first ≠ 0 := by
    intro untouched
    rw [linked.isLive_run live untouched] at freed
    cases freed
  have positive : forest.releases handle.index (first ++ second) ≠ 0 := by
    rw [releases_append]
    exact fun untouched => released (Nat.eq_zero_of_add_eq_zero_right untouched)
  rw [linked.generation_run, (Pool.contains_iff.mp live).2]
  intro same
  have around : UInt32.ofNat (forest.releases handle.index (first ++ second)) = 0 := by
    simpa using same
  have remainder := congrArg UInt32.toNat around
  rw [UInt32.toNat_ofNat_of_lt' few] at remainder
  exact positive remainder

theorem removeTree_of_dead {node : Handle} (dead : forest.node? node = none) :
    forest.removeTree node = forest := by
  have missing := Pool.get?_eq_none_iff.mp (Option.map_eq_none_iff.mp dead)
  have alone : forest.sweep node = [node] := by
    have lost : forest.tree node = .lost node := by
      rw [tree, Tree.ofCells_eq_ofNode]
      change Tree.ofNode node _ (forest.node? node) = _
      rw [dead]
      rfl
    rw [sweep, dead]
    dsimp only
    rw [lost]
    rfl
  rw [removeTree, detach_of_root (parent?_of_dead dead), alone]
  change { forest with cells := forest.cells.erase node } = forest
  rw [Pool.erase, if_neg missing]

theorem snd_perform_remove (forest : Forest) (node : Handle) :
    (forest.perform (.remove node)).2 = forest.removeTree node := by
  cases located : forest.node? node with
  | none =>
      rw [removeTree_of_dead located, perform, remove, Forest.node, located]
      rfl
  | some content =>
      rw [perform, remove, Forest.node, located]
      rfl

theorem run_concat (forest : Forest) (operations : List Operation) (operation : Operation) :
    forest.run (operations ++ [operation]) = ((forest.run operations).perform operation).2 :=
  run_append forest operations [operation]

/-- A graft is a run of other operations, in which the nodes that are not kept are removed
again. -/
theorem graft_eq_run (forest : Forest) (expr : Expr) :
    ∃ operations, (∀ other, .graft other ∉ operations) ∧
      (forest.graft expr).2 = forest.run operations := by
  -- What a graft that fails takes back it takes back by removals.
  induction expr generalizing forest with
  | number value => exact ⟨[.constant value], by simp, rfl⟩
  | «variable» name =>
      refine ⟨[.variable name none], by simp, ?_⟩
      change (forest.graft (.variable name)).2 = (forest.perform (.variable name none)).2
      rw [graft, perform]
      cases forest.addVariable name none <;> rfl
  | binary operator left right leftHypothesis rightHypothesis =>
      rw [graft]
      obtain ⟨first, plain, ran⟩ := leftHypothesis forest
      split
      next refused =>
        rw [refused] at ran
        exact ⟨first, plain, ran⟩
      next low middle grafted =>
        rw [grafted] at ran
        obtain ⟨second, plain', ran'⟩ := rightHypothesis middle
        have both : (middle.graft right).2 = forest.run (first ++ second) := by
          rw [run_append, ← ran, ran']
        split
        next refused =>
          rw [refused] at both
          refine ⟨first ++ second ++ [.remove low], by simp [plain, plain'], ?_⟩
          rw [run_concat, snd_perform_remove, ← both]
        next high last graftedToo =>
          rw [graftedToo] at both
          let all := first ++ second ++ [.binary operator (some low) (some high)]
          have joined : (last.addBinary operator (some low) (some high)).2 = forest.run all := by
            rw [run_concat, ← both]
            rfl
          split
          next refused =>
            rw [refused] at joined
            refine ⟨all ++ [.remove low] ++ [.remove high], by simp [all, plain, plain'], ?_⟩
            rw [run_concat, snd_perform_remove, run_concat, snd_perform_remove, ← joined]
          next => exact ⟨all, by simp [all, plain, plain'], joined⟩

/-- A node that has been removed finds nothing, nothing leads to it and no operation answers with
it, as long as its slot is released fewer than 2 ^ 32 times. -/
theorem Reachable.removed_for_good (reachable : forest.Reachable) :
    (∀ operation node, (forest.perform operation).1 = .ok (some node) →
      (forest.perform operation).2.isLive node = true) ∧
    (∀ handle first second, forest.isLive handle = true →
      (forest.run first).isLive handle = false →
      forest.releases handle.index (first ++ second) < 2 ^ 32 →
      let later := forest.run (first ++ second)
      later.isLive handle = false ∧ later.node handle = .error (.removed handle) ∧
      later.parent handle = .error (.removed handle) ∧
      (∀ node content, later.node? node = some content →
        handle ∉ content.children ∧ later.parent? node ≠ some handle) ∧
      ∀ operation, (later.perform operation).1 ≠ .ok (some handle)) ∧
    (forest.nodes.map Handle.index).Nodup ∧
    (∀ node, node ∈ forest.nodes ↔ forest.isLive node = true) ∧
    (∀ operation, forest.cells.Settles (forest.perform operation).2.cells) ∧
    ∀ expr, ∃ operations, (∀ other, .graft other ∉ operations) ∧
      (forest.graft expr).2 = forest.run operations := by
  have linked := reachable.linked
  refine ⟨fun operation node answered => (linked.keeps_of_answer answered).2, ?_,
    Pool.nodup_index_handles forest.cells, fun node => mem_nodes_iff, linked.settles_perform,
    forest.graft_eq_run⟩
  intro handle first second live freed few later
  have linked' : later.Linked := linked.run (first ++ second)
  have moved : later.cells.generation handle.index ≠ handle.generation :=
    linked.generation_ne_of_freed live freed few
  have dead : later.isLive handle = false := by
    apply Bool.eq_false_iff.mpr
    exact fun found => moved (Pool.contains_iff.mp found).2
  have missing : later.cells.get? handle = none := Option.not_isSome_iff_eq_none.mp (by
    rw [Bool.not_eq_true]
    exact dead)
  refine ⟨dead, ?_, ?_, fun node content located => ⟨fun child => ?_, fun above => ?_⟩, ?_⟩
  · rw [Forest.node, node?, missing]
    rfl
  · rw [Forest.parent, missing]
  · have above := linked'.parent?_of_child handle node ⟨content, located, child⟩
    rw [isLive_iff.mpr (node?_of_parent? above)] at dead
    cases dead
  · obtain ⟨parent, found, -⟩ := linked'.count_of_parent? node handle above
    rw [isLive_iff.mpr ⟨parent, found⟩] at dead
    cases dead
  · -- The slot of an answer is in the generation in which the operation has found it.
    intro operation answered
    obtain ⟨keeps, found⟩ := linked'.keeps_of_answer answered
    have same := (Pool.contains_iff.mp found).2
    rw [(keeps handle.index).1] at same
    exact moved same

/-- The first handle stays unknown while its slot is used for other nodes, one of them
made and removed by a graft that fails. -/
theorem Reachable.removed_for_good_reused :
    let forest := (⟨.empty, .empty⟩ : Forest).run [.constant (.int 1)]
    let quotient : Expr := .binary .divide (.number (.int 1)) (.number (.int 0))
    let later := [.constant (.int 2), .clear, .graft (.binary .assign (.variable "x") quotient),
      .graft quotient, .emptyGroup]
    forest.isLive ⟨0, 0⟩ = true ∧ (forest.run [.remove ⟨0, 0⟩]).isLive ⟨0, 0⟩ = false ∧
    forest.releases 0 ([.remove ⟨0, 0⟩] ++ later) = 3 ∧
    (forest.run ([.remove ⟨0, 0⟩] ++ later)).nodes = [⟨0, 3⟩, ⟨1, 1⟩, ⟨2, 1⟩, ⟨3, 1⟩] ∧
    (forest.run ([.remove ⟨0, 0⟩] ++ later)).node ⟨0, 0⟩ = .error (.removed ⟨0, 0⟩) := by
  intro forest quotient later
  have live : forest.isLive ⟨0, 0⟩ = true := by cbv
  have freed : (forest.run [.remove ⟨0, 0⟩]).isLive ⟨0, 0⟩ = false := by cbv
  have three : forest.releases 0 ([.remove ⟨0, 0⟩] ++ later) = 3 := by cbv
  have few : forest.releases 0 ([.remove ⟨0, 0⟩] ++ later) < 2 ^ 32 := by
    rw [three]
    decide
  have reachable : forest.Reachable := ⟨_, _, rfl⟩
  refine ⟨live, freed, three, by cbv, ?_⟩
  exact (reachable.removed_for_good.2.1 ⟨0, 0⟩ _ _ live freed few).2.1

end Forest

end Worksheet
