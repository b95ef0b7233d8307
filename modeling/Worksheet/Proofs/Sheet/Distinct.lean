import Worksheet.Proofs.Expr.Agreement
import Worksheet.Proofs.Sheet.Operation

/-!
# Lists without repetition

Expressions are compared with the listed ones before they are put at the end of the list.
One that takes the place of another is not, and this is the only way in which a list comes
to hold two expressions that agree.
-/

namespace Worksheet

namespace Forest

def Apart (forest : Forest) (nodes : List Handle) : Prop :=
  ∀ first ∈ nodes, ∀ second ∈ nodes, first ≠ second → forest.agrees first second = false

variable {forest : Forest} {nodes : List Handle} {node : Handle}

theorem Apart.subset {fewer : List Handle} (apart : forest.Apart nodes) (subset : fewer ⊆ nodes) :
    forest.Apart fewer :=
  fun first member second member' => apart first (subset member) second (subset member')

theorem apart_congr {forest' : Forest}
    (same : ∀ first ∈ nodes, ∀ second ∈ nodes,
      forest'.agrees first second = forest.agrees first second) :
    forest'.Apart nodes ↔ forest.Apart nodes := by
  apply forall₂_congr
  intro first member
  apply forall₂_congr
  intro second member'
  rw [same first member second member']

theorem apart_append_iff (fresh : node ∉ nodes)
    (comm : ∀ other ∈ nodes, forest.agrees node other = forest.agrees other node) :
    forest.Apart (nodes ++ [node]) ↔
      forest.Apart nodes ∧ ∀ other ∈ nodes, forest.agrees other node = false := by
  have old {other : Handle} (member : other ∈ nodes) : other ≠ node := by
    rintro rfl
    exact fresh member
  constructor
  · intro apart
    refine ⟨apart.subset (List.subset_append_left nodes [node]), fun other member => ?_⟩
    exact apart other (List.mem_append_left _ member) node
      (List.mem_append_right _ List.mem_cons_self) (old member)
  · rintro ⟨apart, new⟩ first member second member' different
    rcases List.mem_append.mp member with here | here
    · rcases List.mem_append.mp member' with there | there
      · exact apart first here second there different
      · cases List.mem_singleton.mp there
        exact new first here
    · cases List.mem_singleton.mp here
      rcases List.mem_append.mp member' with there | there
      · exact (comm second there).trans (new second there)
      · exact absurd (List.mem_singleton.mp there).symm different

end Forest

namespace Sheet

variable {before sheet : Sheet} {due : Bool} {expr : Expr} {node : Handle} {forest : Forest}

/-- No two listed expressions agree. -/
def Distinct (sheet : Sheet) : Prop :=
  sheet.forest.Apart sheet.listed

/-! ### Comparing listed trees -/

theorem Rooted.agrees_comm (rooted : sheet.Rooted) {first second : Handle}
    (member : first ∈ sheet.listed) (member' : second ∈ sheet.listed) :
    sheet.forest.agrees first second = sheet.forest.agrees second first := by
  obtain ⟨left, found, -⟩ := rooted.expr?_listed first member
  obtain ⟨right, found', -⟩ := rooted.expr?_listed second member'
  rw [rooted.linked.agrees_of_expr? found found', rooted.linked.agrees_of_expr? found' found,
    left.agrees_comm]

theorem Rooted.apart_iff (rooted : sheet.Rooted) (linked : forest.Linked) {nodes : List Handle}
    (listed : nodes ⊆ sheet.listed)
    (same : ∀ node ∈ nodes, forest.tree node = sheet.forest.tree node) :
    forest.Apart nodes ↔ sheet.forest.Apart nodes := by
  apply Forest.apart_congr
  intro first member second member'
  obtain ⟨left, found, -⟩ := rooted.expr?_listed first (listed member)
  obtain ⟨right, found', -⟩ := rooted.expr?_listed second (listed member')
  rw [rooted.linked.agrees_of_expr? found found']
  rw [← same first member] at found
  rw [← same second member'] at found'
  exact linked.agrees_of_expr? found found'

theorem Rooted.apart_of_extends_iff (rooted : sheet.Rooted) (linked : forest.Linked)
    (kept : sheet.forest.Extends forest) : forest.Apart sheet.listed ↔ sheet.Distinct := by
  apply rooted.apart_iff linked (List.Subset.refl _)
  intro node member
  obtain ⟨content, located, -⟩ := rooted.live_of_mem member
  exact rooted.linked.tree_of_extends kept located

theorem Rooted.distinct_refreshRoot_iff (rooted : sheet.Rooted) :
    sheet.refreshRoot.Distinct ↔ sheet.Distinct := by
  apply rooted.apart_iff rooted.refreshRoot_links.1 (List.Subset.refl _)
  exact fun node => rooted.tree_refreshRoot

/-! ### Edits of the list -/

theorem Rooted.distinct_append_iff (rooted : sheet.Rooted) (readable : expr.Readable sheet.kind)
    (grafted : sheet.forest.Grafted expr node forest) :
    ({ sheet with forest, listed := sheet.listed ++ [node] } : Sheet).Distinct ↔
      sheet.Distinct ∧ ∀ other ∈ sheet.listed, forest.agrees other node = false := by
  obtain ⟨grown, -⟩ := rooted.grafted readable grafted
  have fresh : node ∉ sheet.listed := (List.nodup_append_comm.mp grown.nodup_listed).notMem
  have comm (other : Handle) (member : other ∈ sheet.listed) :
      forest.agrees node other = forest.agrees other node :=
    grown.agrees_comm (List.mem_append_right _ List.mem_cons_self)
      (List.mem_append_left _ member)
  rw [← rooted.apart_of_extends_iff grafted.linked grafted.kept]
  exact Forest.apart_append_iff fresh comm

theorem Rooted.distinct_erase_iff (rooted : sheet.Rooted) (member : node ∈ sheet.listed) :
    ({ sheet with
      forest := sheet.forest.removeTree node
      listed := sheet.listed.erase node } : Sheet).Distinct ↔
      sheet.forest.Apart (sheet.listed.erase node) := by
  apply rooted.apart_iff (rooted.linked.removeTree node) List.erase_subset
  intro other stays
  exact rooted.linked.tree_congr fun low => rooted.node?_removeTree member stays

theorem Rooted.distinct_exchange_iff (rooted : sheet.Rooted) (distinct : sheet.Distinct)
    (readable : expr.Readable sheet.kind) {replacement : Handle}
    (grafted : sheet.forest.Grafted expr replacement forest) (member : node ∈ sheet.listed) :
    ({ sheet with
      forest := forest.removeTree node
      listed := sheet.listed.replace node replacement } : Sheet).Distinct ↔
      ∀ other ∈ sheet.listed, other ≠ node → forest.agrees other replacement = false := by
  obtain ⟨grown, -⟩ := rooted.grafted readable grafted
  have fresh : replacement ∉ sheet.listed :=
    (List.nodup_append_comm.mp grown.nodup_listed).notMem
  have erased := grown.distinct_erase_iff (List.mem_append_left _ member)
  rw [List.erase_append_left _ member] at erased
  have order := (perm_replace member).trans (List.perm_append_singleton replacement _).symm
  have comm (other : Handle) (stays : other ∈ sheet.listed.erase node) :
      forest.agrees replacement other = forest.agrees other replacement :=
    grown.agrees_comm (List.mem_append_right _ List.mem_cons_self)
      (List.mem_append_left _ (List.erase_subset stays))
  have rest : forest.Apart (sheet.listed.erase node) :=
    ((rooted.apart_of_extends_iff grafted.linked grafted.kept).mpr distinct).subset
      List.erase_subset
  calc
    (forest.removeTree node).Apart (sheet.listed.replace node replacement)
        ↔ (forest.removeTree node).Apart (sheet.listed.erase node ++ [replacement]) := by
      simp only [Forest.Apart, order.mem_iff]
    _ ↔ forest.Apart (sheet.listed.erase node ++ [replacement]) := erased
    _ ↔ ∀ other ∈ sheet.listed.erase node, forest.agrees other replacement = false := by
      rw [Forest.apart_append_iff (fun again => fresh (List.erase_subset again)) comm]
      exact and_iff_right rest
    _ ↔ ∀ other ∈ sheet.listed, other ≠ node → forest.agrees other replacement = false := by
      simp only [rooted.nodup_listed.mem_erase_iff, and_imp]
      exact forall_congr' fun other => Imp.swap

/-- Edits that exchange nothing add no expression that agrees with a listed one. -/
theorem Edits.distinct (edits : before.Edits false due sheet) (rooted : before.Rooted)
    (distinct : before.Distinct) : sheet.Distinct := by
  induction edits with
  | none => exact distinct
  | declare _ named inductionHypothesis => exact inductionHypothesis
  | prune _ inductionHypothesis => exact inductionHypothesis
  | refuse edits readable done inductionHypothesis =>
      have rooted := (edits.leads rooted).rooted
      obtain ⟨linked, kept, -⟩ := rooted.linked.refused_of_graft readable.lawful done
      exact (rooted.apart_of_extends_iff linked kept).mpr inductionHypothesis
  | skip edits readable done _ inductionHypothesis =>
      have rooted := (edits.leads rooted).rooted
      obtain ⟨grafted, -⟩ := rooted.linked.grafted_of_graft readable.lawful done
      have kept := rooted.linked.extends_removeTree grafted.linked grafted.kept grafted.fresh
        grafted.root
      exact (rooted.apart_of_extends_iff (grafted.linked.removeTree _) kept).mpr
        inductionHypothesis
  | append edits readable done new inductionHypothesis =>
      have rooted := (edits.leads rooted).rooted
      obtain ⟨grafted, -⟩ := rooted.linked.grafted_of_graft readable.lawful done
      refine (rooted.distinct_append_iff readable grafted).mpr ⟨inductionHypothesis, ?_⟩
      simpa using new
  | erase edits member inductionHypothesis =>
      apply ((edits.leads rooted).rooted.distinct_erase_iff member).mpr
      exact inductionHypothesis.subset List.erase_subset
  | exchange _ allowed => cases allowed
  | refreshRoot edits inductionHypothesis =>
      exact (edits.leads rooted).rooted.distinct_refreshRoot_iff.mpr inductionHypothesis
  | clear _ kind =>
      intro first member
      cases member
  | annotate _ filters file version inductionHypothesis => exact inductionHypothesis

/-! ### Replacing -/

theorem Rooted.distinct_merge_iff (rooted : sheet.Rooted) (readable : expr.Readable sheet.kind) :
    (sheet.merge expr).2.Distinct ↔ sheet.Distinct := by
  refine ⟨fun after => ?_, (edits_merge readable).distinct rooted⟩
  rw [merge] at after
  split at after
  next done =>
    obtain ⟨linked, kept, -⟩ := rooted.linked.refused_of_graft readable.lawful done
    exact (rooted.apart_of_extends_iff linked kept).mp after
  next done =>
    obtain ⟨grafted, -⟩ := rooted.linked.grafted_of_graft readable.lawful done
    split at after
    next =>
      have kept := rooted.linked.extends_removeTree grafted.linked grafted.kept grafted.fresh
        grafted.root
      exact (rooted.apart_of_extends_iff (grafted.linked.removeTree _) kept).mp after
    next => exact ((rooted.distinct_append_iff readable grafted).mp after).1

theorem Rooted.distinct_mergeAll_iff (rooted : sheet.Rooted) {exprs : List Expr}
    (readable : ∀ expr ∈ exprs, expr.Readable sheet.kind) :
    (sheet.mergeAll exprs).2.Distinct ↔ sheet.Distinct := by
  induction exprs generalizing sheet with
  | nil => exact Iff.rfl
  | cons expr rest inductionHypothesis =>
      have here := readable expr List.mem_cons_self
      have step := rooted.distinct_merge_iff here
      have rooted' := ((edits_merge here).leads rooted).rooted
      have same := sheet.dialect_merge expr
      rw [mergeAll]
      split
      next failed =>
        rw [failed] at step
        exact step
      next merged done =>
        rw [done] at step rooted' same
        refine (inductionHypothesis rooted' fun other later => ?_).trans step
        rw [kind, same]
        exact readable other (List.mem_cons_of_mem expr later)

theorem Rooted.distinct_mergeAll_then_iff (rooted : sheet.Rooted) {exprs : List Expr}
    (readable : ∀ expr ∈ exprs, expr.Readable sheet.kind) :
    (sheet.mergeAll exprs).2.prune.refreshRoot.Distinct ↔ sheet.Distinct := by
  have pruned := ((edits_mergeAll readable).leads rooted).rooted.leads_prune
  exact pruned.rooted.distinct_refreshRoot_iff.trans (rooted.distinct_mergeAll_iff readable)

/-- Whether an expression agrees with a listed one other than the given. -/
def Known (sheet : Sheet) (node : Handle) (expr : Expr) : Prop :=
  ∃ other ∈ sheet.listed, other ≠ node ∧ ∃ known,
    (sheet.forest.tree other).expr? = some known ∧ known.agrees expr = true

theorem Rooted.known_iff (rooted : sheet.Rooted) {replacement : Handle}
    (grafted : sheet.forest.Grafted expr replacement forest) :
    sheet.Known node expr ↔
      ¬∀ other ∈ sheet.listed, other ≠ node → forest.agrees other replacement = false := by
  have compared {other : Handle} (member : other ∈ sheet.listed) {known : Expr}
      (found : (sheet.forest.tree other).expr? = some known) :
      forest.agrees other replacement = known.agrees expr := by
    obtain ⟨content, located, -⟩ := rooted.live_of_mem member
    apply grafted.linked.agrees_of_expr? _ grafted.expr?
    rw [rooted.linked.tree_of_extends grafted.kept located]
    exact found
  constructor
  · rintro ⟨other, member, different, known, found, agrees⟩ apart
    rw [← compared member found, apart other member different] at agrees
    cases agrees
  · intro some
    push Not at some
    obtain ⟨other, member, different, agrees⟩ := some
    obtain ⟨known, found, -⟩ := rooted.expr?_listed other member
    refine ⟨other, member, different, known, found, ?_⟩
    rw [← compared member found]
    simpa using agrees

theorem Rooted.distinct_replaceBy_iff (rooted : sheet.Rooted) (distinct : sheet.Distinct)
    (member : node ∈ sheet.listed) {first : Expr} {others : List Expr}
    (readable : ∀ expr ∈ first :: others, expr.Readable sheet.kind) :
    (sheet.replaceBy node first others).2.Distinct ↔
      ¬((∃ replacement forest, sheet.forest.graft first = (.ok replacement, forest)) ∧
        sheet.Known node first) := by
  have here := readable first List.mem_cons_self
  rw [replaceBy]
  split
  next refused =>
    obtain ⟨linked, kept, -⟩ := rooted.linked.refused_of_graft here.lawful refused
    apply iff_of_true
    · exact (rooted.apart_of_extends_iff linked kept).mpr distinct
    · rintro ⟨⟨replacement, forest, done⟩, -⟩
      cases refused.symm.trans done
  next replacement forest done =>
    obtain ⟨grafted, -⟩ := rooted.linked.grafted_of_graft here.lawful done
    obtain ⟨replaced, -⟩ := rooted.exchange here grafted member
    have later := replaced.distinct_mergeAll_then_iff fun expr (later : expr ∈ others) =>
      readable expr (List.mem_cons_of_mem first later)
    refine later.trans ?_
    rw [rooted.distinct_exchange_iff distinct here grafted member, rooted.known_iff grafted,
      and_iff_right ⟨replacement, forest, done⟩, not_not]

/-- An operation that puts an expression next to one that agrees with it: a replacement
whose text is read and whose first expression is entered although it is known. -/
def Repeats (sheet : Sheet) : Operation → Prop
  | .replace node text => node ∈ sheet.listed ∧
      ∃ words first others, text = some words ∧ Text.allBlank words.toList = false ∧
        (sheet.dialect.readAll sheet.table words).1 = .ok (first :: others) ∧
        (∃ replacement forest,
          (sheet.withTable (sheet.dialect.readAll sheet.table words).2).forest.graft first =
            (.ok replacement, forest)) ∧
        sheet.Known node first
  | _ => False

theorem Rooted.distinct_replace_iff (rooted : sheet.Rooted) (distinct : sheet.Distinct)
    (text : Option String) :
    (sheet.replace node text).2.Distinct ↔ ¬sheet.Repeats (.replace node text) := by
  rw [replace]
  split
  next listed =>
    split
    next none =>
      apply iff_of_true
      · exact (sheet.edits_remove node).distinct rooted distinct
      · rintro ⟨-, words, first, others, rfl, filled, -⟩
        simp [filled] at none
    next words given =>
      obtain ⟨rfl, filled⟩ : text = some words ∧ Text.allBlank words.toList = false := by
        simpa [Option.filter_eq_some_iff] using given
      have declared := (rooted.withTable (sheet.dialect.readAll sheet.table words).2).1
      dsimp only
      split
      next failed =>
        apply iff_of_true
        · exact distinct
        · rintro ⟨-, _, first, others, same, -, read, -⟩
          cases same
          cases failed.symm.trans read
      next empty =>
        apply iff_of_true
        · exact (edits_remove _ node).distinct declared distinct
        · rintro ⟨-, _, first, others, same, -, read, -⟩
          cases same
          cases empty.symm.trans read
      next first others read =>
        refine (declared.distinct_replaceBy_iff distinct listed
          (Dialect.readable_of_readSegments read)).trans (not_congr ?_)
        constructor
        · rintro ⟨grafted, known⟩
          exact ⟨listed, words, first, others, rfl, filled, read, grafted, known⟩
        · rintro ⟨-, _, first', others', same, -, read', grafted, known⟩
          cases same
          cases read.symm.trans read'
          exact ⟨grafted, known⟩
  next unlisted =>
    apply iff_of_true distinct
    rintro ⟨listed, -⟩
    exact unlisted listed

/-! ### Runs -/

/-- One operation keeps the list free of repetition just if it does not repeat one of its
expressions. -/
theorem Rooted.distinct_perform_iff (rooted : sheet.Rooted) (distinct : sheet.Distinct)
    (operation : Operation) :
    (sheet.perform operation).Distinct ↔ ¬sheet.Repeats operation := by
  have edits := sheet.edits_perform operation
  cases operation with
  | replace node text => exact rooted.distinct_replace_iff distinct text
  | _ => exact iff_of_true (edits.distinct rooted distinct) id

theorem run_concat (sheet : Sheet) (operations : List Operation) (operation : Operation) :
    sheet.run (operations ++ [operation]) = (sheet.run operations).perform operation :=
  List.foldl_append

/-- The list of a sheet never holds two expressions that agree, as long as no replacement
begins with an expression that is listed elsewhere; and such a replacement makes it hold
them. -/
theorem distinct_run_iff (dialect : Dialect) (operations : List Operation) :
    (∀ done, done <+: operations → ((new dialect).run done).Distinct) ↔
      ∀ done operation, done ++ [operation] <+: operations →
        ¬((new dialect).run done).Repeats operation := by
  have rooted (done : List Operation) : ((new dialect).run done).Rooted :=
    (Reachable.rooted_and_sound ⟨dialect, done, rfl⟩).1
  constructor
  · intro distinct done operation ahead
    have before := distinct done ((List.prefix_append done [operation]).trans ahead)
    have after := distinct (done ++ [operation]) ahead
    rw [run_concat] at after
    exact ((rooted done).distinct_perform_iff before operation).mp after
  · intro fresh done ahead
    induction done using List.reverseRecOn with
    | nil =>
        intro first member
        cases member
    | append_singleton done operation inductionHypothesis =>
        have before := inductionHypothesis ((List.prefix_append done [operation]).trans ahead)
        rw [run_concat]
        exact ((rooted done).distinct_perform_iff before operation).mpr
          (fresh done operation ahead)

/-- Replacing the second of two expressions by the first leaves the first one twice. -/
theorem repeated_by_replace :
    let sheet := (new .standard).run [.enter (some "a; b"), .replace ⟨2, 0⟩ (some "a")]
    sheet.Reachable ∧ sheet.renderings = ["a", "a"] ∧ ¬sheet.Distinct := by
  intro sheet
  have renderings : sheet.renderings = ["a", "a"] := by
    unfold sheet
    cbv
  have listed : sheet.listed = [⟨1, 0⟩, ⟨3, 0⟩] := by
    unfold sheet
    cbv
  have agrees : sheet.forest.agrees ⟨1, 0⟩ ⟨3, 0⟩ = true := by
    unfold sheet
    cbv
  refine ⟨⟨_, _, rfl⟩, renderings, fun distinct => ?_⟩
  have apart := distinct ⟨1, 0⟩ (by simp [listed]) ⟨3, 0⟩ (by simp [listed]) (by decide)
  rw [agrees] at apart
  cases apart

end Sheet

end Worksheet
