import Worksheet.Proofs.Expr.Agreement
import Worksheet.Proofs.Forest.Census
import Worksheet.Proofs.Forest.Frames
import Worksheet.Proofs.Forest.Unrooting

/-!
# Comparing trees

Two live nodes agree exactly if their trees are the same but for the handles: of one shape,
with the same operators, operands in the same places, as many members in the same order, the
same names, and constants that agree.  Only a constant that is not a number keeps a tree from
agreeing with itself, and nothing that is done elsewhere makes a difference.
-/

namespace Worksheet

/-- A tree without handles.  An operand may be missing, and a group may be anywhere. -/
inductive Form where
  | constant (value : Number)
  | variable (name : String)
  | binary (operator : Operator) (left right : Option Form)
  | group (members : List Form)

/-- The forms are equal, but for constants that need only agree. -/
inductive Form.Coincides : Form → Form → Prop where
  | constant {value value' : Number} (agrees : value.agrees value' = true) :
      Coincides (.constant value) (.constant value')
  | variable (name : String) : Coincides (.variable name) (.variable name)
  | binary (operator : Operator) {left left' right right' : Option Form}
      (first : Option.Rel Coincides left left') (second : Option.Rel Coincides right right') :
      Coincides (.binary operator left right) (.binary operator left' right')
  | group {members members' : List Form} (each : List.Forall₂ Coincides members members') :
      Coincides (.group members) (.group members')

/-- The form is what is found at the node and, following the links, below it. -/
inductive Forest.Shows (forest : Forest) : Handle → Form → Prop where
  | constant {node : Handle} {value : Number}
      (located : forest.node? node = some (.constant value)) :
      Shows forest node (.constant value)
  | variable {node : Handle} {name : String}
      (located : forest.node? node = some (.variable name)) :
      Shows forest node (.variable name)
  | binary {node : Handle} {operator : Operator} {left right : Option Handle}
      {first second : Option Form}
      (located : forest.node? node = some (.binary operator left right))
      (shown : Option.Rel (Shows forest) left first)
      (shown' : Option.Rel (Shows forest) right second) :
      Shows forest node (.binary operator first second)
  | group {node : Handle} {members : List Handle} {forms : List Form}
      (located : forest.node? node = some (.group members))
      (shown : List.Forall₂ (Shows forest) members forms) :
      Shows forest node (.group forms)

/-! ### Lists and operands, pair by pair -/

section Pairs

variable {α β α' β' : Type} {reads : α → β → Prop} {reads' : α' → β' → Prop}
  {related : α → α' → Prop} {related' : β → β' → Prop}

theorem exists_forall₂ {low : List α} (each : ∀ a ∈ low, ∃ b, reads a b) :
    ∃ high, List.Forall₂ reads low high := by
  induction low with
  | nil => exact ⟨[], .nil⟩
  | cons a rest inductionHypothesis =>
      obtain ⟨⟨b, read⟩, others⟩ := List.forall_mem_cons.mp each
      obtain ⟨high, all⟩ := inductionHypothesis others
      exact ⟨b :: high, .cons read all⟩

theorem exists_rel {low : Option α} (each : ∀ a ∈ low.toList, ∃ b, reads a b) :
    ∃ high, Option.Rel reads low high := by
  cases low with
  | none => exact ⟨none, .none⟩
  | some a =>
      obtain ⟨b, read⟩ := each a (by simp)
      exact ⟨some b, .some read⟩

theorem forall₂_unique {low : List α} {high high' : List β}
    (all : List.Forall₂ reads low high) (all' : List.Forall₂ reads low high')
    (unique : ∀ a ∈ low, ∀ b b', reads a b → reads a b' → b = b') : high = high' := by
  induction all generalizing high' with
  | nil =>
      cases all'
      rfl
  | cons read _ inductionHypothesis =>
      cases all' with
      | cons read' rest =>
          rw [unique _ List.mem_cons_self _ _ read read',
            inductionHypothesis rest fun a member => unique a (List.mem_cons_of_mem _ member)]

theorem rel_unique {low : Option α} {high high' : Option β} (rel : Option.Rel reads low high)
    (rel' : Option.Rel reads low high')
    (unique : ∀ a ∈ low.toList, ∀ b b', reads a b → reads a b' → b = b') : high = high' := by
  cases rel with
  | none =>
      cases rel'
      rfl
  | some read =>
      cases rel' with
      | some read' => rw [unique _ (by simp) _ _ read read']

theorem forall₂_trans {γ : Type} {first : α → β → Prop} {second : β → γ → Prop}
    {both : α → γ → Prop} {low : List α} {middle : List β} {high : List γ}
    (lower : List.Forall₂ first low middle) (upper : List.Forall₂ second middle high)
    (step : ∀ a ∈ low, ∀ b c, first a b → second b c → both a c) : List.Forall₂ both low high := by
  induction lower generalizing high with
  | nil =>
      cases upper
      exact .nil
  | cons related _ inductionHypothesis =>
      cases upper with
      | cons related' rest =>
          refine .cons (step _ List.mem_cons_self _ _ related related') ?_
          exact inductionHypothesis rest fun a member => step a (List.mem_cons_of_mem _ member)

theorem forall₂_iff_of_reads {low : List α} {low' : List α'} {high : List β} {high' : List β'}
    (all : List.Forall₂ reads low high) (all' : List.Forall₂ reads' low' high')
    (each : ∀ a ∈ low, ∀ a' b b', reads a b → reads' a' b' → (related a a' ↔ related' b b')) :
    List.Forall₂ related low low' ↔ List.Forall₂ related' high high' := by
  induction all generalizing low' high' with
  | nil => cases all' <;> simp
  | cons read _ inductionHypothesis =>
      cases all' with
      | nil => simp
      | cons read' rest =>
          rw [List.forall₂_cons, List.forall₂_cons, each _ List.mem_cons_self _ _ _ read read',
            inductionHypothesis rest fun a member => each a (List.mem_cons_of_mem _ member)]

theorem rel_iff_of_reads {low : Option α} {low' : Option α'} {high : Option β}
    {high' : Option β'} (rel : Option.Rel reads low high) (rel' : Option.Rel reads' low' high')
    (each : ∀ a ∈ low.toList, ∀ a' b b', reads a b → reads' a' b' →
      (related a a' ↔ related' b b')) :
    Option.Rel related low low' ↔ Option.Rel related' high high' := by
  cases rel with
  | none => cases rel' <;> simp
  | some read =>
      cases rel' with
      | none => simp
      | some read' => simpa using each _ (by simp) _ _ _ read read'

/-- Operands are related if they are in the same places and the children are related. -/
theorem forall₂_operands_iff {left right : Option α} {left' right' : Option α'} :
    Option.Rel related left left' ∧ Option.Rel related right right' ↔
      (left.isSome = left'.isSome ∧ right.isSome = right'.isSome) ∧
        List.Forall₂ related (left.toList ++ right.toList) (left'.toList ++ right'.toList) := by
  cases left <;> cases left' <;> cases right <;> cases right' <;> simp

end Pairs

/-! ### One step of the comparison -/

namespace Node

/-- Both operands are missing, or there are two and they compare equal. -/
def operandsAgree (compare : Handle → Handle → Bool) : Option Handle → Option Handle → Bool
  | none, none => true
  | some node, some other => compare node other
  | _, _ => false

/-- The comparison of two contents, with their children compared as told. -/
def agreesBy (compare : Handle → Handle → Bool) : Node → Node → Bool
  | .constant value, .constant value' => value.agrees value'
  | .variable name, .variable name' => name == name'
  | .binary operator left right, .binary operator' left' right' =>
      operator == operator' && operandsAgree compare left left' &&
        operandsAgree compare right right'
  | .group members, .group members' =>
      members.length == members'.length &&
        (members.zip members').all fun (member, member') => compare member member'
  | _, _ => false

/-- The contents are alike but for their children, of which both have some in the same
places. -/
inductive Matches : Node → Node → Prop where
  | constant {value value' : Number} (agrees : value.agrees value' = true) :
      Matches (.constant value) (.constant value')
  | variable (name : String) : Matches (.variable name) (.variable name)
  | binary (operator : Operator) {left left' right right' : Option Handle}
      (first : left.isSome = left'.isSome) (second : right.isSome = right'.isSome) :
      Matches (.binary operator left right) (.binary operator left' right')
  | group (members members' : List Handle) : Matches (.group members) (.group members')

namespace Matches

variable {content middle other : Node}

theorem symm (same : content.Matches other) : other.Matches content := by
  cases same with
  | constant agrees => exact .constant ((Number.agrees_comm _ _).trans agrees)
  | «variable» name => exact .variable name
  | binary operator first second => exact .binary operator first.symm second.symm
  | group members members' => exact .group members' members

theorem trans (first : content.Matches middle) (second : middle.Matches other) :
    content.Matches other := by
  cases first with
  | constant agrees =>
      cases second with
      | constant agrees' => exact .constant (Number.agrees_trans agrees agrees')
  | «variable» name => exact second
  | binary operator left right =>
      cases second with
      | binary _ left' right' => exact .binary operator (left.trans left') (right.trans right')
  | group members middle =>
      cases second with
      | group _ members' => exact .group members members'

theorem self_iff :
    content.Matches content ↔ ∀ value, content = .constant value → value.isNaN = false := by
  cases content with
  | constant value =>
      constructor
      · rintro (⟨agrees⟩) _ ⟨⟩
        exact Number.agrees_self_iff.mp agrees
      · exact fun numeric => .constant (Number.agrees_self_iff.mpr (numeric value rfl))
  | «variable» name => simp [Matches.variable name]
  | binary operator left right => simp [Matches.binary operator rfl rfl]
  | group members => simp [Matches.group members members]

end Matches

end Node

namespace Node

variable {compare : Handle → Handle → Bool} {content content' : Node}

theorem operandsAgree_iff {left right : Option Handle} :
    operandsAgree compare left right = true ↔
      Option.Rel (fun node other => compare node other = true) left right := by
  cases left <;> cases right <;> simp [operandsAgree]

theorem zip_agrees_iff {members members' : List Handle} :
    (members.length == members'.length &&
      (members.zip members').all fun (member, member') => compare member member') = true ↔
      List.Forall₂ (fun node other => compare node other = true) members members' := by
  rw [Bool.and_eq_true, beq_iff_eq, List.all_eq_true, List.forall₂_iff_zip]
  exact and_congr_right fun _ => ⟨fun all _ _ pair => all _ pair, fun all pair => @all pair.1 pair.2⟩

theorem zip_all_congr (compare compare' : Handle → Handle → Bool) {members members' : List Handle}
    (same : ∀ member ∈ members, ∀ member' ∈ members',
      compare member member' = compare' member member') :
    ((members.zip members').all fun (member, member') => compare member member') =
      (members.zip members').all fun (member, member') => compare' member member' := by
  rw [Bool.eq_iff_iff, List.all_eq_true, List.all_eq_true]
  apply forall₂_congr
  rintro ⟨member, member'⟩ paired
  obtain ⟨listed, listed'⟩ := List.of_mem_zip paired
  exact Bool.eq_iff_iff.mp (same member listed member' listed')

theorem agreesBy_iff :
    content.agreesBy compare content' = true ↔ content.Matches content' ∧
      List.Forall₂ (fun node other => compare node other = true) content.children
        content'.children := by
  constructor
  · intro agrees
    cases content with
    | constant value =>
        cases content' with
        | constant value' => exact ⟨.constant agrees, .nil⟩
        | _ => cases agrees
    | «variable» name =>
        cases content' with
        | «variable» name' =>
            cases eq_of_beq agrees
            exact ⟨.variable name, .nil⟩
        | _ => cases agrees
    | binary operator left right =>
        cases content' with
        | binary operator' left' right' =>
            rw [agreesBy, Bool.and_eq_true, Bool.and_eq_true, operandsAgree_iff, and_assoc,
              operandsAgree_iff] at agrees
            obtain ⟨same, operands⟩ := agrees
            obtain ⟨⟨first, second⟩, children⟩ := forall₂_operands_iff.mp operands
            cases eq_of_beq same
            exact ⟨.binary operator first second, children⟩
        | _ => cases agrees
    | group members =>
        cases content' with
        | group members' => exact ⟨.group members members', zip_agrees_iff.mp agrees⟩
        | _ => cases agrees
  · rintro ⟨same, children⟩
    cases same with
    | constant agrees => exact agrees
    | «variable» name => exact beq_self_eq_true name
    | binary operator first second =>
        obtain ⟨left, right⟩ := forall₂_operands_iff.mpr ⟨⟨first, second⟩, children⟩
        rw [agreesBy, operandsAgree_iff.mpr left, operandsAgree_iff.mpr right]
        simp
    | group members members' => exact zip_agrees_iff.mpr children

end Node

namespace Tree

theorem agrees_lost (tree : Tree) (id : Handle) : tree.agrees (.lost id) = false := by
  cases tree <;> rfl

theorem lost_agrees (id : Handle) (tree : Tree) : (lost id).agrees tree = false := by
  cases tree <;> rfl

theorem agrees_vacant (tree : Tree) : tree.agrees .vacant = tree.isVacant := by
  cases tree <;> rfl

theorem vacant_agrees (tree : Tree) : vacant.agrees tree = tree.isVacant := by
  cases tree <;> rfl

theorem agrees_ofOperand {read : Handle → Tree} {compare : Handle → Handle → Bool}
    {operand operand' : Option Handle} (shown : ∀ child, (read child).isVacant = false)
    (children : ∀ child' ∈ operand'.toList, ∀ child,
      compare child child' = (read child).agrees (read child')) :
    (ofOperand read operand).agrees (ofOperand read operand') =
      Node.operandsAgree compare operand operand' := by
  cases operand with
  | none =>
      cases operand' with
      | none => rfl
      | some child' => exact (vacant_agrees (read child')).trans (shown child')
  | some child =>
      cases operand' with
      | none => exact (agrees_vacant (read child)).trans (shown child)
      | some child' => exact (children child' (by simp) child).symm

theorem agrees_ofNode {id id' : Handle} {read : Handle → Tree}
    {compare : Handle → Handle → Bool} {content content' : Node}
    (shown : ∀ child, (read child).isVacant = false) (single : content'.isGroup = false)
    (children : ∀ child' ∈ content'.children, ∀ child,
      compare child child' = (read child).agrees (read child')) :
    (ofNode id read (some content)).agrees (ofNode id' read (some content')) =
      content.agreesBy compare content' := by
  cases content' with
  | group members => cases single
  | binary operator' left' right' =>
      cases content with
      | binary operator left right =>
          obtain ⟨first, second⟩ := List.forall_mem_append.mp children
          rw [ofNode, ofNode, agrees, agrees_ofOperand shown first,
            agrees_ofOperand shown second, Node.agreesBy]
      | _ => rfl
  | _ => cases content <;> rfl

end Tree

namespace Forest

variable {forest forest' : Forest} {node other : Handle} {form form' : Form}

theorem Linked.isVacant_tree (linked : forest.Linked) (node : Handle) :
    (forest.tree node).isVacant = false := by
  rw [linked.tree_eq]
  cases forest.node? node with
  | none => rfl
  | some content => cases content <;> rfl

/-- The comparison goes down both trees in step. -/
theorem Linked.agrees_eq (linked : forest.Linked) (node other : Handle) :
    forest.agrees node other =
      match forest.node? node, forest.node? other with
      | some content, some content' => content.agreesBy forest.agrees content'
      | _, _ => false := by
  cases located' : forest.node? other with
  | none =>
      have single : forest.Single other := by simp [Single, located']
      rw [single.agrees_eq, linked.tree_eq other, located', Tree.ofNode, Tree.agrees_lost]
      cases forest.node? node <;> rfl
  | some content' =>
      have below {child' : Handle} (member : child' ∈ content'.children) (child : Handle) :
          forest.agrees child child' = (forest.tree child).agrees (forest.tree child') :=
        Single.agrees_eq (linked.child_not_group ⟨content', located', member⟩) child
      cases located : forest.node? node with
      | none =>
          have lost : forest.tree node = .lost node := by
            rw [linked.tree_eq, located, Tree.ofNode]
          rw [agrees, located, lost]
          exact Tree.lost_agrees node _
      | some content =>
          cases content' with
          | group members' =>
              cases content with
              | group members =>
                  rw [agrees, located, located']
                  apply congrArg (members.length == members'.length && ·)
                  apply Node.zip_all_congr (fun low low' => (forest.tree low).agrees (forest.tree low'))
                  exact fun member _ member' listed' => (below listed' member).symm
              | _ =>
                  rw [agrees, located, located', linked.tree_eq other, located', Tree.ofNode]
                  exact Tree.agrees_lost _ other
          | _ =>
              rw [(single_of_located located' rfl).agrees_eq, linked.tree_eq node,
                linked.tree_eq other, located, located']
              exact Tree.agrees_ofNode linked.isVacant_tree rfl fun child' => below

/-- Two nodes agree if their contents match and their children agree pair by pair. -/
theorem Linked.agrees_iff (linked : forest.Linked) :
    forest.agrees node other = true ↔
      ∃ content content', forest.node? node = some content ∧
        forest.node? other = some content' ∧ content.Matches content' ∧
        List.Forall₂ (fun child child' => forest.agrees child child' = true) content.children
          content'.children := by
  rw [linked.agrees_eq]
  cases forest.node? node with
  | none => simp
  | some content => cases forest.node? other <;> simp [Node.agreesBy_iff]

theorem Linked.agrees_of_dead (linked : forest.Linked)
    (dead : forest.isLive node = false ∨ forest.isLive other = false) :
    forest.agrees node other = false := by
  apply Bool.eq_false_iff.mpr
  intro agrees
  obtain ⟨content, content', located, located', -⟩ := linked.agrees_iff.mp agrees
  rcases dead with dead | dead
  · exact Bool.eq_false_iff.mp dead (isLive_iff.mpr ⟨content, located⟩)
  · exact Bool.eq_false_iff.mp dead (isLive_iff.mpr ⟨content', located'⟩)

/-! ### An equivalence, but for what is not a number -/

theorem Linked.agrees_symm (linked : forest.Linked) (agrees : forest.agrees node other = true) :
    forest.agrees other node = true := by
  induction node using linked.tree_induction generalizing other with
  | _ node inductionHypothesis =>
    obtain ⟨content, content', located, located', same, children⟩ := linked.agrees_iff.mp agrees
    apply linked.agrees_iff.mpr
    refine ⟨content', content, located', located, same.symm, List.Forall₂.flip ?_⟩
    have each : ∀ child ∈ content.children, ∀ child', forest.agrees child child' = true →
        forest.agrees child' child = true := fun child member child' agrees =>
      inductionHypothesis child ⟨content, located, member⟩ agrees
    apply ((List.forall₂_and_left _ _).mpr ⟨each, children⟩).imp
    exact fun child child' pair => pair.1 child' pair.2

theorem Linked.agrees_trans (linked : forest.Linked) {middle : Handle}
    (first : forest.agrees node middle = true) (second : forest.agrees middle other = true) :
    forest.agrees node other = true := by
  induction node using linked.tree_induction generalizing middle other with
  | _ node inductionHypothesis =>
    obtain ⟨content, inner, located, found, same, children⟩ := linked.agrees_iff.mp first
    obtain ⟨inner', content', found', located', same', children'⟩ := linked.agrees_iff.mp second
    cases found.symm.trans found'
    apply linked.agrees_iff.mpr
    refine ⟨content, content', located, located', same.trans same', ?_⟩
    apply forall₂_trans children children'
    intro child member child' child'' lower upper
    exact inductionHypothesis child ⟨content, located, member⟩ lower upper

theorem Linked.agrees_self_iff (linked : forest.Linked) :
    forest.agrees node node = true ↔ forest.isLive node = true ∧
      ∀ low value, forest.Below low node → forest.node? low = some (.constant value) →
        value.isNaN = false := by
  induction node using linked.tree_induction with
  | _ node inductionHypothesis =>
    rw [linked.agrees_iff]
    cases located : forest.node? node with
    | none => simp [isLive_iff, located]
    | some content =>
        have live : forest.isLive node = true := isLive_iff.mpr ⟨content, located⟩
        simp only [Option.some.injEq, exists_and_left, exists_eq_left', Node.Matches.self_iff,
          List.forall₂_same, live, true_and]
        constructor
        · rintro ⟨numeric, children⟩ low value below found
          rcases below_iff.mp below with rfl | ⟨child, down, below⟩
          · exact numeric value (Option.some.inj (located.symm.trans found))
          · have ⟨upper, above, member⟩ := down
            cases located.symm.trans above
            exact ((inductionHypothesis child down).mp (children child member)).2 low value below
              found
        · intro numeric
          refine ⟨fun value same => numeric node value .refl (same ▸ located), ?_⟩
          intro child member
          have down : forest.IsChild child node := ⟨content, located, member⟩
          apply (inductionHypothesis child down).mpr
          refine ⟨isLive_iff.mpr (node?_of_parent? (linked.parent?_of_child child node down)), ?_⟩
          exact fun low value below => numeric low value (below.tail down)

/-! ### Forms -/

theorem shows_constant_iff {value : Number} (located : forest.node? node = some (.constant value)) :
    forest.Shows node form ↔ form = .constant value := by
  constructor
  · rintro (found | found | ⟨found, -, -⟩ | ⟨found, -⟩) <;> cases located.symm.trans found
    rfl
  · rintro rfl
    exact .constant located

theorem shows_variable_iff {name : String} (located : forest.node? node = some (.variable name)) :
    forest.Shows node form ↔ form = .variable name := by
  constructor
  · rintro (found | found | ⟨found, -, -⟩ | ⟨found, -⟩) <;> cases located.symm.trans found
    rfl
  · rintro rfl
    exact .variable located

theorem shows_binary_iff {operator : Operator} {left right : Option Handle}
    (located : forest.node? node = some (.binary operator left right)) :
    forest.Shows node form ↔ ∃ first second, form = .binary operator first second ∧
      Option.Rel forest.Shows left first ∧ Option.Rel forest.Shows right second := by
  constructor
  · rintro (found | found | ⟨found, shown, shown'⟩ | ⟨found, -⟩) <;>
      cases located.symm.trans found
    exact ⟨_, _, rfl, shown, shown'⟩
  · rintro ⟨first, second, rfl, shown, shown'⟩
    exact .binary located shown shown'

theorem shows_group_iff {members : List Handle}
    (located : forest.node? node = some (.group members)) :
    forest.Shows node form ↔
      ∃ forms, form = .group forms ∧ List.Forall₂ forest.Shows members forms := by
  constructor
  · rintro (found | found | ⟨found, -, -⟩ | ⟨found, shown⟩) <;> cases located.symm.trans found
    exact ⟨_, rfl, shown⟩
  · rintro ⟨forms, rfl, shown⟩
    exact .group located shown

theorem Linked.exists_shows (linked : forest.Linked) (live : forest.isLive node = true) :
    ∃ form, forest.Shows node form := by
  induction node using linked.tree_induction with
  | _ node inductionHypothesis =>
    obtain ⟨content, located⟩ := isLive_iff.mp live
    have below (child : Handle) (member : child ∈ content.children) :
        ∃ form, forest.Shows child form := by
      have down : forest.IsChild child node := ⟨content, located, member⟩
      apply inductionHypothesis child down
      exact isLive_iff.mpr (node?_of_parent? (linked.parent?_of_child child node down))
    cases content with
    | constant value => exact ⟨_, .constant located⟩
    | «variable» name => exact ⟨_, .variable located⟩
    | binary operator left right =>
        obtain ⟨inLeft, inRight⟩ := List.forall_mem_append.mp below
        obtain ⟨first, shown⟩ := exists_rel inLeft
        obtain ⟨second, shown'⟩ := exists_rel inRight
        exact ⟨_, .binary located shown shown'⟩
    | group members =>
        obtain ⟨forms, shown⟩ := exists_forall₂ below
        exact ⟨_, .group located shown⟩

theorem Linked.shows_unique (linked : forest.Linked) (shown : forest.Shows node form)
    (shown' : forest.Shows node form') : form = form' := by
  induction node using linked.tree_induction generalizing form form' with
  | _ node inductionHypothesis =>
    have below {content : Node} (located : forest.node? node = some content) (child : Handle)
        (member : child ∈ content.children) (form form' : Form) (shown : forest.Shows child form)
        (shown' : forest.Shows child form') : form = form' :=
      inductionHypothesis child ⟨content, located, member⟩ shown shown'
    cases shown with
    | constant located => exact ((shows_constant_iff located).mp shown').symm
    | «variable» located => exact ((shows_variable_iff located).mp shown').symm
    | binary located first second =>
        obtain ⟨left, right, rfl, first', second'⟩ := (shows_binary_iff located).mp shown'
        obtain ⟨inLeft, inRight⟩ := List.forall_mem_append.mp (below located)
        rw [rel_unique first first' inLeft, rel_unique second second' inRight]
    | group located all =>
        obtain ⟨forms, rfl, all'⟩ := (shows_group_iff located).mp shown'
        rw [forall₂_unique all all' (below located)]

/-- Two nodes agree exactly if their trees coincide. -/
theorem Linked.agrees_iff_coincides (linked : forest.Linked) (shown : forest.Shows node form)
    (shown' : forest.Shows other form') :
    forest.agrees node other = true ↔ form.Coincides form' := by
  -- Induction on what is below the first node; the second one is followed down with it.
  induction node using linked.tree_induction generalizing other form form' with
  | _ node inductionHypothesis =>
    have below {content : Node} (located : forest.node? node = some content) (child : Handle)
        (member : child ∈ content.children) (child' : Handle) (form form' : Form)
        (shown : forest.Shows child form) (shown' : forest.Shows child' form') :
        forest.agrees child child' = true ↔ form.Coincides form' :=
      inductionHypothesis child ⟨content, located, member⟩ shown shown'
    rw [linked.agrees_iff]
    constructor
    · rintro ⟨content, content', located, located', same, children⟩
      cases same with
      | constant agrees =>
          rw [(shows_constant_iff located).mp shown, (shows_constant_iff located').mp shown']
          exact .constant agrees
      | «variable» name =>
          rw [(shows_variable_iff located).mp shown, (shows_variable_iff located').mp shown']
          exact .variable name
      | binary operator first second =>
          obtain ⟨left, right, rfl, reads, reads'⟩ := (shows_binary_iff located).mp shown
          obtain ⟨left', right', rfl, other, other'⟩ := (shows_binary_iff located').mp shown'
          obtain ⟨inLeft, inRight⟩ := List.forall_mem_append.mp (below located)
          obtain ⟨one, two⟩ := forall₂_operands_iff.mpr ⟨⟨first, second⟩, children⟩
          exact .binary operator ((rel_iff_of_reads reads other inLeft).mp one)
            ((rel_iff_of_reads reads' other' inRight).mp two)
      | group members members' =>
          obtain ⟨forms, rfl, all⟩ := (shows_group_iff located).mp shown
          obtain ⟨forms', rfl, all'⟩ := (shows_group_iff located').mp shown'
          exact .group ((forall₂_iff_of_reads all all' (below located)).mp children)
    · intro same
      cases same with
      | constant agrees =>
          cases shown with
          | constant located =>
          cases shown' with
          | constant located' => exact ⟨_, _, located, located', .constant agrees, .nil⟩
      | «variable» name =>
          cases shown with
          | «variable» located =>
          cases shown' with
          | «variable» located' => exact ⟨_, _, located, located', .variable name, .nil⟩
      | binary operator first second =>
          cases shown with
          | binary located reads reads' =>
          cases shown' with
          | binary located' other other' =>
          obtain ⟨inLeft, inRight⟩ := List.forall_mem_append.mp (below located)
          obtain ⟨⟨left, right⟩, children⟩ := forall₂_operands_iff.mp
            ⟨(rel_iff_of_reads reads other inLeft).mpr first,
              (rel_iff_of_reads reads' other' inRight).mpr second⟩
          exact ⟨_, _, located, located', .binary operator left right, children⟩
      | group each =>
          cases shown with
          | group located all =>
          cases shown' with
          | group located' all' =>
          have children := (forall₂_iff_of_reads all all' (below located)).mpr each
          exact ⟨_, _, located, located', .group _ _, children⟩

/-! ### Changes elsewhere -/

theorem Linked.agrees_congr (linked : forest.Linked)
    (same : ∀ low, forest.Below low node ∨ forest.Below low other →
      forest'.node? low = forest.node? low) :
    forest'.agrees node other = forest.agrees node other := by
  have read (top : Handle) (below : forest.Below top node ∨ forest.Below top other) :
      forest'.tree top = forest.tree top :=
    linked.tree_congr fun low under => same low (below.imp under.trans under.trans)
  unfold agrees
  rw [same node (.inl .refl), same other (.inr .refl)]
  split
  next members members' located located' =>
    apply congrArg (members.length == members'.length && ·)
    apply Node.zip_all_congr (fun low low' => (forest'.tree low).agrees (forest'.tree low'))
      fun low low' => (forest.tree low).agrees (forest.tree low')
    intro member listed member' listed'
    have first := read member (.inl (.single ⟨_, located, listed⟩))
    have second := read member' (.inr (.single ⟨_, located', listed'⟩))
    exact congrArg₂ Tree.agrees first second
  next => rw [read node (.inl .refl), read other (.inr .refl)]

/-- Agreement decides whether the trees at two nodes coincide.  Only a NaN keeps a live node from
agreeing with itself, and what happens to other nodes makes no difference. -/
theorem Reachable.agrees_exact (reachable : forest.Reachable) :
    (∀ node, forest.isLive node = true → ∃! form, forest.Shows node form) ∧
    (∀ node other form form', forest.Shows node form → forest.Shows other form' →
      (forest.agrees node other = true ↔ form.Coincides form')) ∧
    (∀ node other, forest.isLive node = false ∨ forest.isLive other = false →
      forest.agrees node other = false) ∧
    (∀ node, forest.agrees node node = true ↔ forest.isLive node = true ∧
      ∀ low value, forest.Below low node → forest.node? low = some (.constant value) →
        value.isNaN = false) ∧
    (∀ node other, forest.agrees node other = true → forest.agrees other node = true) ∧
    (∀ node middle other, forest.agrees node middle = true → forest.agrees middle other = true →
      forest.agrees node other = true) ∧
    ∀ node other operations, forest.isLive node = true → forest.isLive other = true →
      forest.Undisturbed [node, other] operations →
      (forest.run operations).agrees node other = forest.agrees node other := by
  have linked := reachable.linked
  refine ⟨fun node live => ?_, fun _ _ _ _ => linked.agrees_iff_coincides,
    fun _ _ => linked.agrees_of_dead, fun _ => linked.agrees_self_iff,
    fun _ _ => linked.agrees_symm, fun _ _ _ => linked.agrees_trans, ?_⟩
  · obtain ⟨form, shown⟩ := linked.exists_shows live
    exact ⟨form, shown, fun form' shown' => linked.shows_unique shown' shown⟩
  · intro node other operations live live' undisturbed
    apply linked.agrees_congr
    rintro low (below | below)
    · exact linked.node?_run undisturbed (by simp) live below
    · exact linked.node?_run undisturbed (by simp) live' below

/-- Two groups of a sum and of a product without operands agree, also after one of them has been
refused as a member of the other; with the members in another order they do not. -/
theorem Reachable.agrees_exact_groups :
    let forest := (⟨.empty, .empty⟩ : Forest).run
      [.variable "x" none, .constant (.int 2), .binary .add (some ⟨0, 0⟩) (some ⟨1, 0⟩),
        .binary .multiply none none, .group [⟨2, 0⟩, ⟨3, 0⟩],
        .variable "x" none, .constant (.int 2), .binary .add (some ⟨5, 0⟩) (some ⟨6, 0⟩),
        .binary .multiply none none, .group [⟨7, 0⟩, ⟨8, 0⟩],
        .variable "x" none, .binary .add (some ⟨10, 0⟩) none, .binary .multiply none none,
        .group [⟨12, 0⟩, ⟨11, 0⟩]]
    let later := [.remove ⟨12, 0⟩, .setLeft ⟨2, 0⟩ (some ⟨9, 0⟩)]
    forest.Reachable ∧ forest.Undisturbed [⟨4, 0⟩, ⟨9, 0⟩] later ∧
      (forest.run later).agrees ⟨4, 0⟩ ⟨9, 0⟩ = true ∧ (forest.run later).isLive ⟨12, 0⟩ = false ∧
      forest.agrees ⟨4, 0⟩ ⟨13, 0⟩ = false ∧ forest.agrees ⟨2, 0⟩ ⟨11, 0⟩ = false ∧
      forest.agrees ⟨3, 0⟩ ⟨12, 0⟩ = true := by
  intro forest later
  have reachable : forest.Reachable := ⟨_, _, rfl⟩
  have linked := reachable.linked
  let removed := (forest.perform (.remove ⟨12, 0⟩)).2
  have evaluated : forest.isLive ⟨4, 0⟩ = true ∧ forest.isLive ⟨9, 0⟩ = true ∧
      forest.agrees ⟨4, 0⟩ ⟨9, 0⟩ = true ∧ forest.parent? ⟨12, 0⟩ = some ⟨13, 0⟩ ∧
      (forest.run later).isLive ⟨12, 0⟩ = false ∧ forest.agrees ⟨4, 0⟩ ⟨13, 0⟩ = false ∧
      forest.agrees ⟨2, 0⟩ ⟨11, 0⟩ = false ∧ forest.agrees ⟨3, 0⟩ ⟨12, 0⟩ = true := by
    decide +kernel
  obtain ⟨live, live', agrees, above, gone, others⟩ := evaluated
  have apart : ∀ top ∈ [⟨4, 0⟩, ⟨9, 0⟩], ∀ low ∈ forest.sweep top,
      low ∉ forest.sweep ⟨12, 0⟩ ∧ low ≠ ⟨13, 0⟩ := by decide +kernel
  have refused : ∀ top ∈ [⟨4, 0⟩, ⟨9, 0⟩], ∀ low ∈ removed.sweep top,
      (removed.perform (.setLeft ⟨2, 0⟩ (some ⟨9, 0⟩))).2.node? low = removed.node? low := by
    decide +kernel
  have undisturbed : forest.Undisturbed [⟨4, 0⟩, ⟨9, 0⟩] later := by
    refine ⟨fun top member low below => .inl ⟨by simp [Operation.receiver?], ?_, ?_⟩,
      fun top member low below => .inr ?_, trivial⟩
    · intro child listed down
      obtain rfl := List.mem_singleton.mp listed
      have listing := linked.parent?_of_child _ low down
      cases above.symm.trans listing
      exact (apart top member _ (linked.mem_sweep.mpr below)).2 rfl
    · intro freed
      exact (apart top member low (linked.mem_sweep.mpr below)).1 (linked.mem_sweep.mpr freed)
    · exact refused top member low ((linked.perform _).mem_sweep.mpr below)
  have kept := (agrees_exact reachable).2.2.2.2.2.2 ⟨4, 0⟩ ⟨9, 0⟩ later live live' undisturbed
  exact ⟨reachable, undisturbed, kept.trans agrees, gone, others⟩

end Forest

end Worksheet
