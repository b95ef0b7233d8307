import Worksheet.Proofs.Forest.Staleness
import Worksheet.Proofs.Sheet.Removing
import Worksheet.Proofs.Sheet.Versions

/-!
# Replacing an expression

The first expression of a text takes the place of a listed one, in a tree of its own, and the
old tree goes.  Only then are the other expressions of the text merged, so that they are
compared with the first one and no longer with the old one.  Whether or not one of them cannot
be grafted, the variables are in the end those of the listed expressions.
-/

namespace Worksheet

/-! ### Blank texts -/

theorem Text.allBlank_splitFirst {cut : Char → Bool} {text : List Char}
    (blank : allBlank text = true) : allBlank (splitFirst cut text).1 = true := by
  induction text with
  | nil => rfl
  | cons c rest inductionHypothesis =>
      simp only [allBlank, List.all_cons, Bool.and_eq_true] at blank inductionHypothesis ⊢
      cases here : cut c with
      | true => simp [splitFirst, here]
      | false => simpa [splitFirst, here, blank.1] using inductionHypothesis blank.2

theorem Dialect.filled_of_readAll {dialect : Dialect} {table after : Variables} {text : String}
    {exprs : List Expr} (read : dialect.readAll table text = (.ok exprs, after)) :
    Text.allBlank text.toList = false := by
  apply Bool.eq_false_iff.mpr
  intro blank
  have first : Text.allBlank (Text.splitFirst (· = dialect.separator) text.toList).1 = true :=
    Text.allBlank_splitFirst blank
  have refused : Expr.read dialect.kind (Text.splitFirst (· = dialect.separator) text.toList).1 =
      .error .missingOperand := by
    rw [Expr.read, Grammar.Phrase.read, if_pos first]
    rfl
  rw [readAll, segments, Text.split, readSegments] at read
  dsimp only at read
  rw [refused] at read
  cases read

namespace Sheet

variable {sheet exchanged last : Sheet} {node replacement : Handle} {expr first : Expr}
  {others : List Expr} {forest : Forest} {earlier later : List Handle}

/-! ### Exchanging -/

/-- In the place of a listed expression stands another one, in a new tree, and the nodes of the
old one are gone. -/
structure Exchanges (sheet : Sheet) (node : Handle) (expr : Expr) (replacement : Handle)
    (earlier later : List Handle) (exchanged : Sheet) : Prop where
  former : sheet.listed = earlier ++ node :: later
  listed : exchanged.listed = earlier ++ replacement :: later
  /-- The new tree is made of new nodes, before the old one goes. -/
  fresh : ∀ low, exchanged.forest.Below low replacement → sheet.forest.isLive low = false
  found : (exchanged.forest.tree replacement).expr? = some expr
  freed : ∀ low, sheet.forest.Below low node →
    sheet.forest.isLive low = true ∧ exchanged.forest.isLive low = false
  trees : ∀ other ∈ earlier ++ later,
    exchanged.forest.tree other = sheet.forest.tree other

theorem Exchanges.of_withTable {table : Variables}
    (exchanges : (sheet.withTable table).Exchanges node expr replacement earlier later exchanged) :
    sheet.Exchanges node expr replacement earlier later exchanged :=
  ⟨exchanges.former, exchanges.listed, exchanges.fresh, exchanges.found, exchanges.freed,
    exchanges.trees⟩

theorem Rooted.exchanges (rooted : sheet.Rooted) (readable : expr.Readable sheet.kind)
    (done : sheet.forest.graft expr = (.ok replacement, forest)) (member : node ∈ sheet.listed) :
    ∃ earlier later, sheet.Exchanges node expr replacement earlier later { sheet with
      forest := forest.removeTree node
      listed := sheet.listed.replace node replacement } := by
  obtain ⟨grafted, -⟩ := rooted.linked.grafted_of_graft readable.lawful done
  obtain ⟨grown, -⟩ := rooted.grafted readable grafted
  obtain ⟨content, located, -⟩ := rooted.live_of_mem member
  obtain ⟨earlier, later, former, outside⟩ := List.eq_append_cons_of_mem member
  -- The trees beside the old one are those of the list that has grown by the new one.
  have unchanged {other : Handle} (stays : other ∈ (sheet.listed ++ [replacement]).erase node) :
      (forest.removeTree node).tree other = forest.tree other :=
    grafted.linked.tree_congr fun low =>
      grown.node?_removeTree (List.mem_append_left _ member) stays
  rw [List.erase_append_left _ member] at unchanged
  have same := unchanged (List.mem_append_right _ List.mem_cons_self)
  have found : ((forest.removeTree node).tree replacement).expr? = some expr :=
    (congrArg Tree.expr? same).trans grafted.expr?
  have removed := grafted.linked.removeTree node
  refine ⟨earlier, later, former, ?listed, ?fresh, found, ?freed, ?trees⟩
  case listed =>
    change sheet.listed.replace node replacement = earlier ++ replacement :: later
    rw [former, List.replace_append_right outside, List.replace_cons_self]
  case fresh =>
    intro low below
    have swept : low ∈ ((forest.removeTree node).tree replacement).sweep :=
      (removed.mem_sweep_tree (removed.single_of_expr? found)).mpr below
    rw [same, grafted.linked.mem_sweep_tree (grafted.linked.single_of_expr? grafted.expr?)] at swept
    apply Bool.eq_false_iff.mpr
    intro live
    obtain ⟨content, located⟩ := Forest.isLive_iff.mp live
    exact rooted.linked.not_below_of_fresh grafted.linked grafted.kept located grafted.fresh swept
  case freed =>
    intro low below
    refine ⟨Forest.isLive_iff.mpr (rooted.linked.live_of_below located below), ?_⟩
    have below' := below.mono fun other content found => (grafted.kept other content found).1
    apply Bool.eq_false_iff.mpr
    intro live
    obtain ⟨content, found⟩ := Forest.isLive_iff.mp live
    cases (grafted.linked.node?_removeTree_of_below below').symm.trans found
  case trees =>
    intro other beside
    have stays : other ∈ sheet.listed.erase node := by
      rwa [former, List.erase_append_right _ outside, List.erase_cons_head]
    obtain ⟨content, located, -⟩ := rooted.live_of_mem (List.erase_subset stays)
    rw [unchanged (List.mem_append_left _ stays)]
    exact rooted.linked.tree_of_extends grafted.kept located

/-! ### Ageing -/

theorem steady_refreshRoot (sheet : Sheet) :
    sheet.forest.cells.Steady sheet.refreshRoot.forest.cells :=
  (Forest.steady_detachMembers sheet.forest sheet.root).trans
    (Forest.steady_adoptAll _ sheet.root sheet.listed)

theorem Rooted.settles_merge (rooted : sheet.Rooted) (expr : Expr) :
    sheet.forest.cells.Settles (sheet.merge expr).2.forest.cells := by
  have makes := rooted.linked.makes_graft expr
  rw [merge]
  split
  next refused =>
    rw [refused] at makes
    exact makes.settles
  next made forest done =>
    rw [done] at makes
    have keeps := (makes.made made rfl).1
    split
    next => exact keeps.then (Forest.sheds_removeTree forest made).settles
    next => exact keeps.settles

theorem Rooted.ages_mergeAll (rooted : sheet.Rooted) {exprs : List Expr}
    (readable : ∀ expr ∈ exprs, expr.Readable sheet.kind) :
    sheet.forest.cells.Ages (sheet.mergeAll exprs).2.forest.cells exprs.length := by
  induction exprs generalizing sheet with
  | nil => exact (Pool.Steady.refl sheet.forest.cells).ages
  | cons expr rest inductionHypothesis =>
      have here := readable expr List.mem_cons_self
      have step := (rooted.settles_merge expr).ages
      have rooted' := ((edits_merge here).leads rooted).rooted
      have same := sheet.dialect_merge expr
      rw [mergeAll, List.length_cons, Nat.add_comm]
      split
      next merged failed =>
        rw [failed] at step
        exact step.mono (Nat.le_add_right 1 rest.length)
      next merged done =>
        rw [done] at step rooted' same
        apply step.trans (inductionHypothesis rooted' fun other later => ?_)
        rw [kind, same]
        exact readable other (List.mem_cons_of_mem expr later)

/-! ### Replacing -/

theorem replaceBy_of_graft (done : sheet.forest.graft first = (.ok replacement, forest))
    (others : List Expr) :
    let exchanged : Sheet := { sheet with
      forest := forest.removeTree node, listed := sheet.listed.replace node replacement }
    sheet.replaceBy node first others = ((exchanged.mergeAll others).1.map fun _ => true,
      (exchanged.mergeAll others).2.prune.refreshRoot) := by
  rw [replaceBy, done]

/-- Unless it has been through all generations in the meantime, no slot of the old tree is
found again by its old handle. -/
theorem Rooted.isLive_replaceBy_of_below (rooted : sheet.Rooted)
    (readable : ∀ expr ∈ first :: others, expr.Readable sheet.kind)
    (done : sheet.forest.graft first = (.ok replacement, forest)) (member : node ∈ sheet.listed)
    (few : others.length + 1 < 2 ^ 32) {low : Handle} (below : sheet.forest.Below low node) :
    (sheet.replaceBy node first others).2.forest.isLive low = false := by
  have here := readable first List.mem_cons_self
  obtain ⟨earlier, later, exchanges⟩ := rooted.exchanges here done member
  obtain ⟨live, gone⟩ := exchanges.freed low below
  obtain ⟨grafted, -⟩ := rooted.linked.grafted_of_graft here.lawful done
  have makes := rooted.linked.makes_graft first
  rw [done] at makes
  have made := (makes.made replacement rfl).1.contains live
  have ages := (rooted.exchange here grafted member).1.ages_mergeAll fun expr inside =>
    readable expr (List.mem_cons_of_mem first inside)
  rw [replaceBy_of_graft done]
  exact (Forest.sheds_removeTree forest node).contains_eq_false made gone
    (ages.trans (steady_refreshRoot _).ages) few

theorem Exchanges.left (exchanges : sheet.Exchanges node expr replacement earlier later exchanged)
    (rooted : exchanged.Rooted) {nodes : List Handle} {new : List Expr}
    (grows : exchanged.Grows nodes new last) :
    let after := last.prune.refreshRoot
    after.listed = earlier ++ replacement :: later ++ nodes ∧
      (∀ other ∈ earlier ++ later, after.forest.tree other = sheet.forest.tree other) ∧
      (after.forest.tree replacement).expr? = some expr ∧
      nodes.map (fun node => (after.forest.tree node).expr?) = new.map some := by
  intro after
  have kept := grows.trans (grows.rooted.grows_withTable last.prune.table)
  rw [List.append_nil, List.append_nil] at kept
  obtain ⟨listed, found, -, trees, -⟩ := kept.gathered rooted true
  rw [exchanges.listed] at listed trees
  refine ⟨listed, fun other beside => ?_, ?_, found⟩
  · rw [← exchanges.trees other beside]
    apply trees
    simp only [List.mem_append, List.mem_cons] at beside ⊢
    exact beside.imp_right .inr
  · have stands := trees replacement (List.mem_append_right _ List.mem_cons_self)
    exact (congrArg Tree.expr? stands).trans exchanges.found

theorem Rooted.mentions_of_isRegistered (rooted : last.Rooted) {name : String}
    (found : last.prune.refreshRoot.table.isRegistered name = true) :
    last.prune.refreshRoot.Mentions name := by
  obtain ⟨-, -, -, known⟩ := rooted.refreshRoot_prune
  by_contra missing
  rw [Variables.isRegistered, known, if_neg missing] at found
  cases found

/-- The first expression stands where the old one stood, and after the list stand those of the
others that were new when they were merged. -/
theorem Rooted.replaceBy_in_place (rooted : sheet.Rooted)
    (readable : ∀ expr ∈ first :: others, expr.Readable sheet.kind)
    (done : sheet.forest.graft first = (.ok replacement, forest)) (member : node ∈ sheet.listed) :
    let after := (sheet.replaceBy node first others).2
    ∃ earlier later exchanged nodes new outcome,
      sheet.Exchanges node first replacement earlier later exchanged ∧
      exchanged.Merges others nodes new outcome ∧
      (sheet.replaceBy node first others).1 = outcome.1.map (fun _ => true) ∧
      after.listed = earlier ++ replacement :: later ++ nodes ∧
      (∀ other ∈ earlier ++ later, after.forest.tree other = sheet.forest.tree other) ∧
      (after.forest.tree replacement).expr? = some first ∧
      nodes.map (fun node => (after.forest.tree node).expr?) = new.map some ∧
      ∀ name, after.table.isRegistered name = true → after.Mentions name := by
  intro after
  have here := readable first List.mem_cons_self
  obtain ⟨grafted, -⟩ := rooted.linked.grafted_of_graft here.lawful done
  obtain ⟨exchanged, -⟩ := rooted.exchange here grafted member
  obtain ⟨earlier, later, exchanges⟩ := rooted.exchanges here done member
  obtain ⟨nodes, new, merges⟩ := exchanged.mergeAll_merges fun expr inside =>
    readable expr (List.mem_cons_of_mem first inside)
  obtain ⟨listed, trees, found, made⟩ := exchanges.left exchanged merges.grows
  unfold after
  rw [replaceBy_of_graft done]
  exact ⟨earlier, later, _, nodes, new, _, exchanges, merges, rfl, listed, trees, found, made,
    fun name => merges.grows.rooted.mentions_of_isRegistered⟩

/-- The first expression of the text gets a new tree where the old one stood, and those of the
others that are new when they are merged follow at the end, up to the first that cannot be
grafted.  The handles of the old tree find nothing, unless the text wears out a slot. -/
theorem Undisturbed.replace_in_place (undisturbed : sheet.Undisturbed)
    (member : node ∈ sheet.listed) {text : String} {table : Variables}
    (read : sheet.dialect.readAll sheet.table text = (.ok (first :: others), table))
    (grafted : (sheet.withTable table).forest.graft first = (.ok replacement, forest)) :
    let answer := (sheet.replace node (some text)).1
    let after := (sheet.replace node (some text)).2
    ∃ earlier later exchanged done rest nodes new merged,
      sheet.Exchanges node first replacement earlier later exchanged ∧
      others = done ++ rest ∧ exchanged.Merged done nodes new merged ∧
      (rest = [] ∧ answer = .ok true ∨
        ∃ expr further fault refused, rest = expr :: further ∧
          merged.forest.graft expr = (.error fault, refused) ∧ answer = .error (.fault fault)) ∧
      after.listed = earlier ++ replacement :: later ++ nodes ∧
      (∀ other ∈ earlier ++ later, after.forest.tree other = sheet.forest.tree other) ∧
      (after.forest.tree replacement).expr? = some first ∧
      nodes.map (fun node => (after.forest.tree node).expr?) = new.map some ∧
      (∀ name, after.table.isRegistered name = true ↔ after.Mentions name) ∧
      (others.length + 1 < 2 ^ 32 → node ∉ after.listed ∧
        ∀ low, sheet.forest.Below low node → after.forest.isLive low = false) := by
  intro answer after
  have readable := Dialect.readable_of_readSegments (congrArg Prod.fst read)
  have filled := Dialect.filled_of_readAll read
  have declared : (sheet.withTable table).Rooted :=
    (undisturbed.safe.intact.rooted.withTable table).1
  have safe : after.Safe := undisturbed.safe.edits (sheet.edits_replace node (some text))
  have replaced : sheet.replace node (some text) =
      (sheet.withTable table).replaceBy node first others := by
    rw [replace, if_pos member, filter_eq_some_of_filled filled]
    dsimp only
    rw [read]
  have freed (few : others.length + 1 < 2 ^ 32) (low : Handle)
      (below : sheet.forest.Below low node) : after.forest.isLive low = false := by
    unfold after
    rw [replaced]
    exact declared.isLive_replaceBy_of_below readable grafted member few below
  have unlisted (few : others.length + 1 < 2 ^ 32) : node ∉ after.listed := by
    intro listed
    obtain ⟨content, located, -⟩ := safe.intact.rooted.live_of_mem listed
    have dead := freed few node .refl
    rw [Forest.isLive_iff.mpr ⟨content, located⟩] at dead
    cases dead
  obtain ⟨earlier, later, exchanged, nodes, new, outcome, exchanges, merges, answered, listed,
    trees, found, made, known⟩ := declared.replaceBy_in_place readable grafted member
  rw [← replaced] at answered listed trees found made known
  have names (name : String) :
      after.table.isRegistered name = true ↔ after.Mentions name := by
    refine ⟨known name, ?_⟩
    rintro ⟨expr, inside, mentioned⟩
    exact safe.registered expr inside name mentioned
  -- The other drafts are all merged, or those before one whose graft is refused.
  cases merges with
  | finished merged =>
      exact ⟨earlier, later, exchanged, others, [], nodes, new, _, exchanges.of_withTable,
        (List.append_nil _).symm, merged, .inl ⟨rfl, answered⟩, listed, trees, found, made, names,
        fun few => ⟨unlisted few, freed few⟩⟩
  | stopped split merged refused spared =>
      exact ⟨earlier, later, exchanged, _, _, nodes, new, _, exchanges.of_withTable, split, merged,
        .inr ⟨_, _, _, _, rfl, refused, answered⟩, listed, trees, found, made, names,
        fun few => ⟨unlisted few, freed few⟩⟩

/-- Two known expressions are left out, one that agrees with the old expression is listed, in
the slot of the old one, and the first that cannot be grafted ends it. -/
theorem Undisturbed.replace_in_place_until_division :
    let sheet := (Sheet.new ⟨.int, ';'⟩).acts [.own (.enter "a = 2; a + b; c")]
    let text := "a * 3; c; a * 3; a + b; d = 1 / 0; e"
    let after := (sheet.replace ⟨6, 0⟩ (some text)).2
    sheet.Undisturbed ∧ sheet.listed = [⟨3, 0⟩, ⟨6, 0⟩, ⟨7, 0⟩] ∧
      (sheet.replace ⟨6, 0⟩ (some text)).1 = .error (.fault .divisionByZero) ∧
      after.listed = [⟨3, 0⟩, ⟨10, 0⟩, ⟨7, 0⟩, ⟨6, 2⟩] ∧
      after.renderings = ["a = 2", "a * 3", "c", "a + b"] ∧
      after.forest.isLive ⟨6, 0⟩ = false ∧ after.table.isRegistered "b" = true ∧
      after.table.isRegistered "d" = false := by
  intro sheet text after
  have undisturbed : sheet.Undisturbed := ⟨_, _, by simp [Action.isDirect], rfl⟩
  have listed : sheet.listed = [⟨3, 0⟩, ⟨6, 0⟩, ⟨7, 0⟩] := by decide +kernel
  have member : (⟨6, 0⟩ : Handle) ∈ sheet.listed := by simp [listed]
  let a : Expr := .variable "a"
  have read : (sheet.dialect.readAll sheet.table text).1 =
      .ok [.binary .multiply a (.number (.int 3)), .variable "c",
        .binary .multiply a (.number (.int 3)), .binary .add a (.variable "b"),
        .binary .assign (.variable "d") (.binary .divide (.number (.int 1)) (.number (.int 0))),
        .variable "e"] := by decide +kernel
  have grafted : ((sheet.withTable (sheet.dialect.readAll sheet.table text).2).forest.graft
      (.binary .multiply a (.number (.int 3)))).1 = .ok ⟨10, 0⟩ := by decide +kernel
  obtain ⟨earlier, later, exchanged, done, rest, nodes, new, merged, -, -, -, -, -, -, -, -,
    names, freed⟩ :=
    Undisturbed.replace_in_place undisturbed member (Prod.ext read rfl) (Prod.ext grafted rfl)
  have mentions : after.Mentions "b" ∧ ¬after.Mentions "d" := by decide +kernel
  refine ⟨undisturbed, listed, by decide +kernel, by decide +kernel, by decide +kernel,
    (freed (by decide)).2 _ .refl, (names "b").mpr mentions.1, ?_⟩
  exact Bool.eq_false_iff.mpr fun known => mentions.2 ((names "d").mp known)

end Sheet

end Worksheet
