import Worksheet.Report
import Worksheet.Proofs.Sheet.Filtering
import Worksheet.Proofs.Sheet.Saving

/-!
# Outlines

An outline has a line for each node of a tree: a node comes before what is below it, and what
is on the left before what is on the right.  Every operator has two operands, and no number
and no name looks like an operator, so the lines tell what the tree is, even without their
indentation.
-/

namespace Worksheet

open Grammar

/-! ### Lines of a text -/

/-- A text of lines that end in newlines has no other lines. -/
theorem eq_of_join_lines {lines lines' : List String}
    (uncut : ∀ line ∈ lines, ∀ c ∈ line.toList, decide (c = '\n') = false)
    (uncut' : ∀ line ∈ lines', ∀ c ∈ line.toList, decide (c = '\n') = false)
    (same : String.join (lines.map (· ++ "\n")) = String.join (lines'.map (· ++ "\n"))) :
    lines = lines' := by
  have found {lines : List String}
      (uncut : ∀ line ∈ lines, ∀ c ∈ line.toList, decide (c = '\n') = false) :
      Text.split (· = '\n') (String.join (lines.map (· ++ "\n"))).toList =
        lines.map String.toList ++ [[]] := by
    rw [Text.toList_join_lines]
    apply Text.split_flatMap
    simpa using uncut
  have lists := found uncut
  rw [same, found uncut'] at lists
  have each := List.append_cancel_right lists
  exact (List.map_injective_iff.mpr (fun _ _ => String.toList_inj.mp) each).symm

/-! ### What a line shows -/

namespace Number

variable {value : Number}

theorem eq_of_source {value' : Number} (finite : value.isFinite = true)
    (finite' : value'.isFinite = true) (typed : value.kind = value'.kind)
    (same : value.source = value'.source) : value = value' := by
  obtain ⟨_, _, _, _, read⟩ := source_of_isFinite finite
  obtain ⟨_, _, _, _, read'⟩ := source_of_isFinite finite'
  rw [typed, same, read'] at read
  exact (Option.some.inj read).symm

theorem exists_digit_of_isFinite (finite : value.isFinite = true) :
    ∃ (digit : Char) (rest : List Char), digit.isDigit = true ∧
      (value.source.toList = digit :: rest ∨ value.source.toList = '-' :: digit :: rest) := by
  obtain ⟨negative, lexeme, formed, text, -⟩ := source_of_isFinite finite
  obtain ⟨digit, rest, chars⟩ : ∃ digit rest, lexeme.chars = digit :: rest := by
    apply List.exists_cons_of_ne_nil
    simp [Decimal.Lexeme.chars, formed.whole_ne_nil]
  refine ⟨digit, rest, formed.isDigit_head digit (by simp [chars]), ?_⟩
  cases negative <;> simp [text, Written.withSign, chars]

end Number

namespace Expr

/-- The names are names, and the numbers are finite and of the kind. -/
structure IsShown (kind : Kind) (expr : Expr) : Prop where
  named : ∀ name ∈ expr.names, isName name.toList = true
  typed : ∀ value ∈ expr.constants, value.kind = kind ∧ value.isFinite = true

/-- The lines of an expression, as an outline has them. -/
def outline (depth : Nat) : Expr → List String
  | .number value => [indentation depth ++ value.source]
  | .variable name => [indentation depth ++ name]
  | .binary operator left right =>
      (indentation depth ++ operator.symbol.toString) ::
        (left.outline (depth + 1) ++ right.outline (depth + 1))

variable {kind : Kind} {name : String} {value : Number}

theorem IsShown.left {operator : Operator} {left right : Expr}
    (shown : (binary operator left right).IsShown kind) : left.IsShown kind where
  named name member := shown.named name (List.mem_append_left _ member)
  typed value member := shown.typed value (List.mem_append_left _ member)

theorem IsShown.right {operator : Operator} {left right : Expr}
    (shown : (binary operator left right).IsShown kind) : right.IsShown kind where
  named name member := shown.named name (List.mem_append_right _ member)
  typed value member := shown.typed value (List.mem_append_right _ member)

/-! ### What is told apart by its line -/

theorem name_ne_symbol (named : isName name.toList = true) (operator : Operator) :
    name ≠ operator.symbol.toString := by
  rintro rfl
  have letter := isNameChar_of_isName named operator.symbol (by simp)
  simp [operator.isNameChar_symbol] at letter

theorem source_ne_symbol (finite : value.isFinite = true) (operator : Operator) :
    value.source ≠ operator.symbol.toString := by
  intro same
  obtain ⟨digit, rest, isDigit, text⟩ := Number.exists_digit_of_isFinite finite
  have symbol : operator.symbol = digit := by
    rcases text with text | text <;> simp_all
  have letter : isNameChar digit = true := by simp [isNameChar, Char.isAlphanum, isDigit]
  simp [← symbol, operator.isNameChar_symbol] at letter

theorem name_ne_source (named : isName name.toList = true) (finite : value.isFinite = true) :
    name ≠ value.source := by
  rintro rfl
  obtain ⟨digit, rest, isDigit, text | text⟩ := Number.exists_digit_of_isFinite finite
  · rw [text, isName, Bool.and_eq_true] at named
    have letter := startsNumber_of_isNameStart named.1 rest
    simp [startsNumber, isDigit] at letter
  · simp [text, isName, isNameStart] at named

theorem eq_of_indented {depth : Nat} {line line' : String} {rest rest' : List String}
    (same : (indentation depth ++ line) :: rest = (indentation depth ++ line') :: rest') :
    line = line' ∧ rest = rest' := by
  simpa only [List.cons.injEq, String.append_right_inj] using same

/-- Whatever follows them, the lines of an expression tell which one it is and where it
ends: the line of an operator has two operands after it, and any other line has none. -/
theorem eq_of_outline_append {first second : Expr} (shown : first.IsShown kind)
    (shown' : second.IsShown kind) {depth : Nat} {rest rest' : List String}
    (same : first.outline depth ++ rest = second.outline depth ++ rest') :
    first = second ∧ rest = rest' := by
  -- The first line tells numbers, names and operators apart.  The operands come behind it, and
  -- the second one begins where the first ends.
  induction first generalizing second depth rest rest' with
  | number value =>
      obtain ⟨typed, finite⟩ := shown.typed value List.mem_cons_self
      cases second with
      | number value' =>
          obtain ⟨typed', finite'⟩ := shown'.typed value' List.mem_cons_self
          obtain ⟨text, later⟩ := eq_of_indented same
          have numbers := Number.eq_of_source finite finite' (typed.trans typed'.symm) text
          exact ⟨congrArg number numbers, later⟩
      | «variable» name =>
          have named := shown'.named name List.mem_cons_self
          exact absurd (eq_of_indented same).1.symm (name_ne_source named finite)
      | binary operator _ _ =>
          exact absurd (eq_of_indented same).1 (source_ne_symbol finite operator)
  | «variable» name =>
      have named := shown.named name List.mem_cons_self
      cases second with
      | number value =>
          obtain ⟨-, finite⟩ := shown'.typed value List.mem_cons_self
          exact absurd (eq_of_indented same).1 (name_ne_source named finite)
      | «variable» name' =>
          obtain ⟨names, later⟩ := eq_of_indented same
          exact ⟨congrArg «variable» names, later⟩
      | binary operator _ _ =>
          exact absurd (eq_of_indented same).1 (name_ne_symbol named operator)
  | binary operator left right leftHypothesis rightHypothesis =>
      cases second with
      | number value =>
          obtain ⟨-, finite⟩ := shown'.typed value List.mem_cons_self
          exact absurd (eq_of_indented same).1.symm (source_ne_symbol finite operator)
      | «variable» name =>
          have named := shown'.named name List.mem_cons_self
          exact absurd (eq_of_indented same).1.symm (name_ne_symbol named operator)
      | binary operator' left' right' =>
          simp only [outline, List.cons_append, List.append_assoc] at same
          obtain ⟨symbols, operands⟩ := eq_of_indented same
          have operators : operator = operator' := by
            apply Operator.symbol_injective
            simpa using congrArg String.toList symbols
          obtain ⟨lefts, later⟩ := leftHypothesis shown.left shown'.left operands
          obtain ⟨rights, last⟩ := rightHypothesis shown.right shown'.right later
          exact ⟨by rw [operators, lefts, rights], last⟩

theorem newline_not_mem_outline {expr : Expr} (shown : expr.IsShown kind) (depth : Nat) :
    ∀ line ∈ expr.outline depth, ∀ c ∈ line.toList, decide (c = '\n') = false := by
  have unbroken (depth : Nat) {text : String} (solid : Text.Solid text.toList) :
      ∀ c ∈ (indentation depth ++ text).toList, decide (c = '\n') = false := by
    intro c member
    rw [String.toList_append, List.mem_append] at member
    rcases member with blank | inside
    · have space : c = ' ' := by
        simp only [indentation, String.toList_join, List.mem_flatMap, List.mem_replicate] at blank
        obtain ⟨_, ⟨-, rfl⟩, space⟩ := blank
        simpa using space
      simp [space]
    · exact solid.newline_not_mem c inside
  induction expr generalizing depth with
  | number value => simpa [outline] using unbroken depth (solid_source value)
  | «variable» name =>
      simpa [outline] using unbroken depth (solid_written shown.named)
  | binary operator left right leftHypothesis rightHypothesis =>
      have symbol : Text.Solid operator.symbol.toString.toList := by
        cases operator <;> exact Text.Solid.singleton rfl
      intro line member
      rw [outline, List.mem_cons, List.mem_append] at member
      rcases member with rfl | first | second
      · exact unbroken depth symbol
      · exact leftHypothesis shown.left (depth + 1) line first
      · exact rightHypothesis shown.right (depth + 1) line second

end Expr

/-! ### Ways through a tree -/

/-- What is on the left comes before what is on the right. -/
instance : LT Side := ⟨fun first second => first = .left ∧ second = .right⟩

def Node.label : Node → String
  | .constant value => value.source
  | .variable name => name
  | .binary operator _ _ => operator.symbol.toString
  | .group _ => groupLabel

namespace Tree

/-- The nodes with the ways that lead down to them, in the order of the lines. -/
def places : Tree → List (List Side × Handle)
  | .vacant | .lost _ => []
  | .constant id _ | .variable id _ => [([], id)]
  | .binary id _ left right =>
      ([], id) :: (left.places.map (fun (way, node) => (.left :: way, node)) ++
        right.places.map fun (way, node) => (.right :: way, node))

variable {tree : Tree} {expr : Expr}

theorem outline_of_expr? (found : tree.expr? = some expr) (depth : Nat) :
    tree.outline depth = expr.outline depth := by
  induction tree generalizing expr depth with
  | binary id operator left right leftHypothesis rightHypothesis =>
      obtain ⟨first, second, leftFound, rightFound, rfl⟩ := expr?_binary_eq_some_iff.mp found
      simp [outline, Expr.outline, leftHypothesis leftFound, rightHypothesis rightFound]
  | constant id value =>
      cases found
      rfl
  | «variable» id name =>
      cases found
      rfl
  | _ => cases found

/-- The ways are in lexicographic order: a node stands before what is below it, and what is
on the left before what is on the right. -/
theorem pairwise_places (tree : Tree) :
    tree.places.Pairwise fun first second => first.1 < second.1 := by
  induction tree with
  | binary id operator left right leftHypothesis rightHypothesis =>
      simp only [places, List.pairwise_cons, List.pairwise_append, List.pairwise_map]
      have deeper (side : Side) {first second : List Side × Handle} (before : first.1 < second.1) :
          side :: first.1 < side :: second.1 :=
        List.cons_lt_cons_iff.mpr (.inr ⟨rfl, before⟩)
      refine ⟨?_, leftHypothesis.imp (deeper .left), rightHypothesis.imp (deeper .right), ?_⟩
      · intro place member
        rcases List.mem_append.mp member with member | member <;>
          obtain ⟨_, -, rfl⟩ := List.mem_map.mp member <;> exact List.nil_lt_cons _ _
      · intro first member second member'
        obtain ⟨_, -, rfl⟩ := List.mem_map.mp member
        obtain ⟨_, -, rfl⟩ := List.mem_map.mp member'
        exact List.cons_lt_cons_iff.mpr (.inl ⟨rfl, rfl⟩)
  | _ => simp [places]

theorem perm_sweep_places (found : tree.expr? = some expr) :
    (tree.places.map Prod.snd).Perm tree.sweep := by
  induction tree generalizing expr with
  | binary id operator left right leftHypothesis rightHypothesis =>
      obtain ⟨first, second, leftFound, rightFound, rfl⟩ := expr?_binary_eq_some_iff.mp found
      simp only [places, sweep, List.map_cons, List.map_append, List.map_map]
      apply List.Perm.cons
      exact (List.perm_append_comm).trans ((rightHypothesis rightFound).append (leftHypothesis leftFound))
  | constant id value => simp [places, sweep]
  | «variable» id name => simp [places, sweep]
  | _ => cases found

end Tree

namespace Forest

variable {forest : Forest} {top : Handle} {expr : Expr}

def descend? (forest : Forest) (top : Handle) : List Side → Option Handle
  | [] => some top
  | side :: way => (forest.operand? top side).bind fun child => forest.descend? child way

def label (forest : Forest) (node : Handle) : String :=
  (forest.node? node).elim "" Node.label

theorem label_of_located {content : Node} (located : forest.node? top = some content) :
    forest.label top = content.label := by
  simp [label, located]

theorem Linked.lines_of_terminal (linked : forest.Linked) {content : Node}
    (located : forest.node? top = some content) (terminal : content.isTerminal = true)
    (depth : Nat) :
    (forest.tree top).outline depth = [indentation depth ++ content.label] ∧
      (forest.tree top).places = [([], top)] ∧
      ∀ side way, forest.descend? top (side :: way) = none := by
  rw [linked.tree_eq, located]
  cases content with
  | constant value => simp [Tree.ofNode, Tree.outline, Tree.places, Tree.render, Node.label,
      descend?, operand?, located, Node.operand?]
  | «variable» name => simp [Tree.ofNode, Tree.outline, Tree.places, Tree.render, Node.label,
      descend?, operand?, located, Node.operand?]
  | _ => cases terminal

/-- The lines and places of an operator are its own and, one step further down, those of its
operands. -/
theorem Linked.lines_of_binary (linked : forest.Linked) {operator : Operator}
    {left right : Handle}
    (located : forest.node? top = some (.binary operator (some left) (some right)))
    (depth : Nat) :
    (forest.tree top).outline depth =
        (indentation depth ++ operator.symbol.toString) ::
          ((forest.tree left).outline (depth + 1) ++ (forest.tree right).outline (depth + 1)) ∧
      (forest.tree top).places =
        ([], top) :: ((forest.tree left).places.map (fun (way, node) => (.left :: way, node)) ++
          (forest.tree right).places.map fun (way, node) => (.right :: way, node)) ∧
      ∀ side way, forest.descend? top (side :: way) =
        forest.descend? (match side with | .left => left | .right => right) way := by
  rw [linked.tree_eq, located]
  refine ⟨rfl, rfl, fun side way => ?_⟩
  cases side <;> simp [descend?, operand?, located, Node.operand?]

/-- Every way down from the top is listed, with the node to which it leads. -/
theorem Linked.mem_places_iff (linked : forest.Linked)
    (found : (forest.tree top).expr? = some expr) {way : List Side} {node : Handle} :
    (way, node) ∈ (forest.tree top).places ↔ forest.descend? top way = some node := by
  have leaf {top : Handle} {way : List Side} {content : Node}
      (located : forest.node? top = some content) (terminal : content.isTerminal = true) :
      (way, node) ∈ (forest.tree top).places ↔ forest.descend? top way = some node := by
    obtain ⟨-, places, ended⟩ := linked.lines_of_terminal located terminal 0
    cases way with
    | nil => simp [places, descend?, eq_comm]
    | cons side way => simp [places, ended]
  induction expr generalizing top way with
  | number value => exact leaf (linked.carries found) rfl
  | «variable» name => exact leaf (linked.carries found) rfl
  | binary operator first second leftHypothesis rightHypothesis =>
      obtain ⟨left, right, located, leftFound, rightFound⟩ := linked.carries found
      obtain ⟨-, places, further⟩ := linked.lines_of_binary located 0
      cases way with
      | nil => simp [places, descend?, eq_comm]
      | cons side way =>
          cases side with
          | left => simp [places, further, leftHypothesis leftFound]
          | right => simp [places, further, rightHypothesis rightFound]

/-- Each line is indented by the length of the way down to its node. -/
theorem Linked.outline_eq_map (linked : forest.Linked)
    (found : (forest.tree top).expr? = some expr) (depth : Nat) :
    (forest.tree top).outline depth = (forest.tree top).places.map fun (way, node) =>
      indentation (depth + way.length) ++ forest.label node := by
  have leaf {top : Handle} {content : Node} (located : forest.node? top = some content)
      (terminal : content.isTerminal = true) (depth : Nat) :
      (forest.tree top).outline depth = (forest.tree top).places.map fun (way, node) =>
        indentation (depth + way.length) ++ forest.label node := by
    obtain ⟨lines, places, -⟩ := linked.lines_of_terminal located terminal depth
    simp [lines, places, label_of_located located]
  induction expr generalizing top depth with
  | number value => exact leaf (linked.carries found) rfl depth
  | «variable» name => exact leaf (linked.carries found) rfl depth
  | binary operator first second leftHypothesis rightHypothesis =>
      obtain ⟨left, right, located, leftFound, rightFound⟩ := linked.carries found
      obtain ⟨lines, places, -⟩ := linked.lines_of_binary located depth
      rw [lines, places, leftHypothesis leftFound, rightHypothesis rightFound]
      simp [label_of_located located, Node.label, Nat.add_assoc, Nat.add_comm 1,
        Function.comp_def]

theorem not_group_of_expr? (found : (forest.tree top).expr? = some expr) :
    ∀ members, forest.node? top ≠ some (.group members) := by
  intro members located
  rw [tree, Tree.ofCells_eq_ofNode, ← node?, located] at found
  cases found

theorem outline_of_not_group (single : ∀ members, forest.node? top ≠ some (.group members))
    (depth : Nat) : forest.outline depth top = (forest.tree top).outline depth := by
  unfold outline
  split
  next members located => exact absurd located (single members)
  next => rfl

/-- The members of a group have the outlines that they have alone. -/
theorem Linked.outline_group (linked : forest.Linked) {members : List Handle}
    (located : forest.node? top = some (.group members)) (depth : Nat) :
    forest.outline depth top =
      (indentation depth ++ groupLabel) :: members.flatMap (forest.outline (depth + 1)) := by
  unfold outline
  rw [located]
  apply congrArg (List.cons _)
  apply List.flatMap_congr
  intro member listed
  exact (outline_of_not_group (linked.child_not_group ⟨_, located, listed⟩) (depth + 1)).symm

/-- The outline has one line for each node, indented by the length of the way down to it, in the
lexicographic order of these ways; and it tells which expression it is. -/
theorem Reachable.outline_exact {other : Forest} (reachable : forest.Reachable) (kind : Kind)
    (depth : Nat) (top top' : Handle) (expr expr' : Expr)
    (whole : (forest.tree top).expr? = some expr)
    (whole' : (other.tree top').expr? = some expr')
    (named : ∀ name ∈ (forest.tree top).names, isName name.toList = true)
    (named' : ∀ name ∈ (other.tree top').names, isName name.toList = true)
    (typed : ∀ value ∈ (forest.tree top).constants, value.kind = kind ∧ value.isFinite = true)
    (typed' : ∀ value ∈ (other.tree top').constants,
      value.kind = kind ∧ value.isFinite = true) :
    (∃ places : List (List Side × Handle),
      forest.outline depth top = places.map (fun (way, node) =>
        indentation (depth + way.length) ++ forest.label node) ∧
      places.Pairwise (fun first second => first.1 < second.1) ∧
      (∀ way node, (way, node) ∈ places ↔ forest.descend? top way = some node) ∧
      (places.map Prod.snd).Nodup ∧
        ∀ node, node ∈ places.map Prod.snd ↔ forest.Below node top) ∧
    (String.join ((forest.outline depth top).map (· ++ "\n")) =
        String.join ((other.outline depth top').map (· ++ "\n")) ↔
      expr = expr') := by
  have linked := reachable.linked
  have single := not_group_of_expr? whole
  have single' := not_group_of_expr? whole'
  rw [outline_of_not_group single, outline_of_not_group single']
  constructor
  · have swept := Tree.perm_sweep_places whole
    rw [← sweep_of_not_group single] at swept
    refine ⟨(forest.tree top).places, linked.outline_eq_map whole depth,
      (forest.tree top).pairwise_places, fun way node => linked.mem_places_iff whole,
      swept.nodup_iff.mpr (linked.nodup_sweep top), fun node => ?_⟩
    rw [swept.mem_iff, linked.mem_sweep]
  · rw [Tree.names_of_expr? whole] at named
    rw [Tree.names_of_expr? whole'] at named'
    rw [Tree.constants_of_expr? whole] at typed
    rw [Tree.constants_of_expr? whole'] at typed'
    rw [Tree.outline_of_expr? whole, Tree.outline_of_expr? whole']
    have shown : expr.IsShown kind := ⟨named, typed⟩
    have shown' : expr'.IsShown kind := ⟨named', typed'⟩
    constructor
    · intro same
      have lines := eq_of_join_lines (Expr.newline_not_mem_outline shown depth)
        (Expr.newline_not_mem_outline shown' depth) same
      have followed : expr.outline depth ++ [] = expr'.outline depth ++ [] := by rw [lines]
      exact (Expr.eq_of_outline_append shown shown' followed).1
    · rintro rfl
      rfl

/-- A difference by a negative number and the same numbers the other way around have the same
lines in another order, and so they are two texts. -/
theorem Reachable.outline_exact_differences :
    let forest := (⟨.empty, .empty⟩ : Forest).run
      [.variable "x" none, .constant (.int (-1)),
        .binary .subtract (some ⟨0, 0⟩) (some ⟨1, 0⟩), .constant (.int (-1)), .variable "x" none,
        .binary .subtract (some ⟨3, 0⟩) (some ⟨4, 0⟩)]
    forest.outline 1 ⟨2, 0⟩ = ["  -", "    x", "    -1"] ∧
      String.join ((forest.outline 1 ⟨2, 0⟩).map (· ++ "\n")) ≠
        String.join ((forest.outline 1 ⟨5, 0⟩).map (· ++ "\n")) := by
  intro forest
  have whole : (forest.tree ⟨2, 0⟩).expr? = some (.binary .subtract (.variable "x")
      (.number (.int (-1)))) := by
    unfold forest
    cbv
  have whole' : (forest.tree ⟨5, 0⟩).expr? = some (.binary .subtract (.number (.int (-1)))
      (.variable "x")) := by
    unfold forest
    cbv
  have reachable : forest.Reachable := ⟨_, _, rfl⟩
  have exact := (Reachable.outline_exact reachable .int 1 ⟨2, 0⟩ ⟨5, 0⟩ _ _ whole whole'
    (by rw [Tree.names_of_expr? whole]; decide)
    (by rw [Tree.names_of_expr? whole']; decide)
    (by rw [Tree.constants_of_expr? whole]; decide)
    (by rw [Tree.constants_of_expr? whole']; decide)).2
  refine ⟨?_, fun same => ?_⟩
  · unfold forest
    cbv
  · cases exact.mp same

end Forest

end Worksheet
