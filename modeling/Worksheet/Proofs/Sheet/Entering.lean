import Worksheet.Proofs.Sheet.Rooted

/-!
# Entering expressions into a sheet

What a sheet holds after an expression has been entered depends on what it held before,
and on nothing else: the variables are those after the expression, and the list has one
expression more unless it had one like it.
-/

namespace Worksheet

/-- Puts an expression at the end, unless one that agrees with it is there. -/
def Expr.insertNew (known : List Expr) (expr : Expr) : List Expr :=
  if known.any fun other => other.agrees expr then known else known ++ [expr]

theorem Forest.Linked.agrees_of_expr? {forest : Forest} (linked : forest.Linked)
    {node other : Handle} {first second : Expr} (found : (forest.tree node).expr? = some first)
    (found' : (forest.tree other).expr? = some second) :
    forest.agrees node other = first.agrees second := by
  obtain ⟨content, located, single⟩ := linked.live_of_expr? found
  unfold Forest.agrees
  split
  next group _ =>
    cases located.symm.trans group
    cases single
  next => exact Tree.agrees_of_expr? found found'

namespace Sheet

variable {sheet : Sheet}

/-- The sheet is rooted, with the given dialect, expressions and variables. -/
structure Holds (sheet : Sheet) (dialect : Dialect) (exprs : List Expr) (table : Variables) :
    Prop where
  rooted : sheet.Rooted
  dialect : sheet.dialect = dialect
  exprs : sheet.exprs = exprs
  table : sheet.table = table

theorem Rooted.holds (rooted : sheet.Rooted) :
    sheet.Holds sheet.dialect sheet.exprs sheet.table :=
  ⟨rooted, rfl, rfl, rfl⟩

theorem Holds.withTable {dialect : Dialect} {exprs : List Expr} {table : Variables}
    (holds : sheet.Holds dialect exprs table) (table' : Variables) :
    (sheet.withTable table').Holds dialect exprs table' := by
  obtain ⟨rooted, same⟩ := holds.rooted.withTable table'
  exact ⟨rooted, holds.dialect, same.trans holds.exprs, rfl⟩

theorem Holds.refreshRoot {dialect : Dialect} {exprs : List Expr} {table : Variables}
    (holds : sheet.Holds dialect exprs table) : sheet.refreshRoot.Holds dialect exprs table := by
  obtain ⟨rooted, exprs, table⟩ := holds.rooted.refreshRoot
  exact ⟨rooted, holds.dialect, exprs.trans holds.exprs, table.trans holds.table⟩

/-! ### Growing -/

/-- The second sheet lists what the first one lists, in the same nodes, and after that new
expressions in new nodes. -/
structure Grows (sheet : Sheet) (nodes : List Handle) (new : List Expr) (after : Sheet) :
    Prop where
  rooted : after.Rooted
  dialect : after.dialect = sheet.dialect
  kept : sheet.forest.Extends after.forest
  listed : after.listed = sheet.listed ++ nodes
  found : nodes.map (fun node => (after.forest.tree node).expr?) = new.map some
  fresh : ∀ node ∈ nodes, sheet.forest.node? node = none

variable {middle after : Sheet} {nodes others : List Handle} {new further : List Expr}

theorem Rooted.grows_of_extends (rooted : sheet.Rooted) {forest : Forest}
    (linked : forest.Linked) (kept : sheet.forest.Extends forest) :
    sheet.Grows [] [] { sheet with forest } :=
  ⟨(rooted.of_extends linked kept).1, rfl, kept, (List.append_nil _).symm, rfl, by simp⟩

theorem Rooted.grows_withTable (rooted : sheet.Rooted) (table : Variables) :
    sheet.Grows [] [] (sheet.withTable table) :=
  rooted.grows_of_extends (rooted.linked.withTable table) fun _ _ located => ⟨located, rfl⟩

theorem Rooted.grows_refl (rooted : sheet.Rooted) : sheet.Grows [] [] sheet :=
  rooted.grows_of_extends rooted.linked fun _ _ located => ⟨located, rfl⟩

theorem Grows.live_of_mem (grows : sheet.Grows nodes new after) {node : Handle}
    (member : node ∈ nodes) : ∃ content, after.forest.node? node = some content := by
  have listed : node ∈ after.listed := by
    rw [grows.listed]
    exact List.mem_append_right _ member
  obtain ⟨content, located, -⟩ := grows.rooted.live_of_mem listed
  exact ⟨content, located⟩

theorem Grows.trans (first : sheet.Grows nodes new middle)
    (second : middle.Grows others further after) :
    sheet.Grows (nodes ++ others) (new ++ further) after := by
  refine ⟨second.rooted, second.dialect.trans first.dialect, first.kept.trans second.kept,
    ?_, ?_, ?_⟩
  · rw [second.listed, first.listed, List.append_assoc]
  · rw [List.map_append, List.map_append, second.found, ← first.found]
    congr 1
    apply List.map_congr_left
    intro node member
    obtain ⟨content, located⟩ := first.live_of_mem member
    rw [first.rooted.linked.tree_of_extends second.kept located]
  · intro node member
    rcases List.mem_append.mp member with earlier | later
    · exact first.fresh node earlier
    · cases located : sheet.forest.node? node with
      | none => rfl
      | some content =>
          cases (second.fresh node later).symm.trans (first.kept node content located).1

/-- The old trees stay as they are, handles included. -/
theorem Grows.tree_eq (grows : sheet.Grows nodes new after) (rooted : sheet.Rooted)
    {node : Handle} (member : node ∈ sheet.listed) :
    after.forest.tree node = sheet.forest.tree node := by
  obtain ⟨content, located, -⟩ := rooted.live_of_mem member
  exact rooted.linked.tree_of_extends grows.kept located

theorem Grows.exprs (grows : sheet.Grows nodes new after) (rooted : sheet.Rooted) :
    after.exprs = sheet.exprs ++ new := by
  have same : (sheet.listed.map fun node => (after.forest.tree node).expr?) =
      sheet.exprs.map some := by
    rw [← rooted.map_expr?]
    apply List.map_congr_left
    exact fun node member => congrArg Tree.expr? (grows.tree_eq rooted member)
  apply List.map_injective_iff.mpr (Option.some_injective Expr)
  rw [← grows.rooted.map_expr?, grows.listed, List.map_append, List.map_append, same, grows.found]

theorem Grows.holds (grows : sheet.Grows nodes new after) (rooted : sheet.Rooted) :
    after.Holds sheet.dialect (sheet.exprs ++ new) after.table :=
  ⟨grows.rooted, grows.dialect, grows.exprs rooted, rfl⟩

/-! ### Merging -/

theorem Rooted.any_agrees (rooted : sheet.Rooted) {expr : Expr} {node : Handle} {forest : Forest}
    (grafted : sheet.forest.Grafted expr node forest) :
    (sheet.listed.any fun listed => forest.agrees listed node) =
      sheet.exprs.any fun other => other.agrees expr := by
  have same : ∀ listed ∈ sheet.listed, ∀ other,
      (sheet.forest.tree listed).expr? = some other →
        forest.agrees listed node = other.agrees expr := by
    intro listed member other found
    obtain ⟨content, located, -⟩ := rooted.live_of_mem member
    apply grafted.linked.agrees_of_expr? _ grafted.expr?
    rw [rooted.linked.tree_of_extends grafted.kept located]
    exact found
  apply Bool.eq_iff_iff.mpr
  rw [List.any_eq_true, List.any_eq_true]
  constructor
  · rintro ⟨listed, member, agrees⟩
    obtain ⟨other, found, -⟩ := rooted.expr?_listed listed member
    refine ⟨other, List.mem_filterMap.mpr ⟨listed, member, found⟩, ?_⟩
    rwa [← same listed member other found]
  · rintro ⟨other, member, agrees⟩
    obtain ⟨listed, member, found⟩ := List.mem_filterMap.mp member
    exact ⟨listed, member, (same listed member other found).trans agrees⟩

theorem Rooted.merge_of_entered (rooted : sheet.Rooted) {expr : Expr}
    (readable : expr.Readable sheet.kind) {table : Variables}
    (entered : sheet.table.entered expr = .ok table) :
    ∃ nodes new merged, sheet.merge expr = (.ok !nodes.isEmpty, merged) ∧
      sheet.Grows nodes new merged ∧ Expr.insertNew sheet.exprs expr = sheet.exprs ++ new ∧
      merged.table = table := by
  obtain ⟨node, forest, done, grafted, same⟩ :=
    rooted.linked.graft_of_entered readable.lawful entered
  have known := rooted.any_agrees grafted
  rw [merge, done, Expr.insertNew, ← known]
  dsimp only
  split
  next listed =>
    have kept := rooted.linked.extends_removeTree grafted.linked grafted.kept grafted.fresh
      grafted.root
    refine ⟨[], [], _, rfl, rooted.grows_of_extends (grafted.linked.removeTree node) kept,
      (List.append_nil _).symm, ?_⟩
    exact (Forest.table_removeTree_of_root grafted.root).trans same
  next unlisted =>
    refine ⟨[node], [expr], _, rfl, ?_, rfl, same⟩
    refine ⟨(rooted.grafted readable grafted).1, rfl, grafted.kept, rfl, ?_, ?_⟩
    · exact congrArg ([·]) grafted.expr?
    · exact fun other member => List.mem_singleton.mp member ▸ grafted.fresh

theorem Rooted.merge_of_refused (rooted : sheet.Rooted) {expr : Expr}
    (readable : expr.Readable sheet.kind) {fault : Fault}
    (refused : sheet.table.entered expr = .error fault) :
    ∃ merged, sheet.merge expr = (.error (.fault fault), merged) ∧ sheet.Grows [] [] merged ∧
      merged.table = sheet.table.declareAll expr.names := by
  obtain ⟨forest, done, linked, kept, same⟩ :=
    rooted.linked.graft_of_refused readable.lawful refused
  exact ⟨_, by rw [merge, done], rooted.grows_of_extends linked kept, same⟩

/-- Expressions have been merged one after the other: they have been replayed, and what was
new of them when it came has been listed. -/
structure Merged (sheet : Sheet) (exprs : List Expr) (nodes : List Handle) (new : List Expr)
    (after : Sheet) : Prop extends sheet.Grows nodes new after where
  replayed : sheet.table.replay exprs = .ok after.table
  inserted : exprs.foldl Expr.insertNew sheet.exprs = sheet.exprs ++ new

theorem Rooted.merged_nil (rooted : sheet.Rooted) : sheet.Merged [] [] [] sheet :=
  ⟨rooted.grows_refl, rfl, (List.append_nil _).symm⟩

theorem Merged.trans {exprs remaining : List Expr} (rooted : sheet.Rooted)
    (first : sheet.Merged exprs nodes new middle)
    (second : middle.Merged remaining others further after) :
    sheet.Merged (exprs ++ remaining) (nodes ++ others) (new ++ further) after := by
  refine ⟨first.toGrows.trans second.toGrows, ?_, ?_⟩
  · rw [Variables.replay, List.foldlM_append]
    exact bind_eq_ok_iff.mpr ⟨middle.table, first.replayed, second.replayed⟩
  · rw [List.foldl_append, first.inserted, ← first.exprs rooted, second.inserted,
      first.exprs rooted, List.append_assoc]

theorem Rooted.merge_cases (rooted : sheet.Rooted) {expr : Expr}
    (readable : expr.Readable sheet.kind) :
    (∃ nodes new after, sheet.merge expr = (.ok !nodes.isEmpty, after) ∧
      sheet.Merged [expr] nodes new after) ∨
    ∃ fault forest, sheet.forest.graft expr = (.error fault, forest) ∧
      sheet.merge expr = (.error (.fault fault), { sheet with forest }) ∧
      sheet.Grows [] [] { sheet with forest } := by
  cases entered : sheet.table.entered expr with
  | ok table =>
      obtain ⟨nodes, new, after, done, grows, inserted, same⟩ :=
        rooted.merge_of_entered readable entered
      refine .inl ⟨nodes, new, after, done, grows, ?_, inserted⟩
      rw [Variables.replay, List.foldlM_cons, entered, same]
      rfl
  | error fault =>
      obtain ⟨forest, done, linked, kept, -⟩ :=
        rooted.linked.graft_of_refused readable.lawful entered
      exact .inr ⟨fault, forest, done, by rw [merge, done],
        rooted.grows_of_extends linked kept⟩

/-- How the merging of expressions can end: all of them are merged, or some are, and the next
one cannot be grafted. -/
inductive Merges (sheet : Sheet) (exprs : List Expr) (nodes : List Handle) (new : List Expr) :
    Except SheetError Unit × Sheet → Prop where
  | finished {after : Sheet} (merged : sheet.Merged exprs nodes new after) :
      Merges sheet exprs nodes new (.ok (), after)
  | stopped {done rest : List Expr} {expr : Expr} {middle : Sheet} {fault : Fault}
      {forest : Forest} (split : exprs = done ++ expr :: rest)
      (merged : sheet.Merged done nodes new middle)
      (refused : middle.forest.graft expr = (.error fault, forest))
      (spared : middle.Grows [] [] { middle with forest }) :
      Merges sheet exprs nodes new (.error (.fault fault), { middle with forest })

theorem Merges.grows {exprs : List Expr} {outcome : Except SheetError Unit × Sheet}
    (merges : sheet.Merges exprs nodes new outcome) : sheet.Grows nodes new outcome.2 := by
  cases merges with
  | finished merged => exact merged.toGrows
  | stopped split merged refused spared => simpa using merged.toGrows.trans spared

theorem Merged.merges {exprs remaining : List Expr} {outcome : Except SheetError Unit × Sheet}
    (rooted : sheet.Rooted) (merged : sheet.Merged exprs nodes new middle)
    (merges : middle.Merges remaining others further outcome) :
    sheet.Merges (exprs ++ remaining) (nodes ++ others) (new ++ further) outcome := by
  cases merges with
  | finished later => exact .finished (merged.trans rooted later)
  | stopped split later refused spared =>
      rw [split, ← List.append_assoc]
      exact .stopped rfl (merged.trans rooted later) refused spared

theorem Rooted.mergeAll_merges (rooted : sheet.Rooted) {exprs : List Expr}
    (readable : ∀ expr ∈ exprs, expr.Readable sheet.kind) :
    ∃ nodes new, sheet.Merges exprs nodes new (sheet.mergeAll exprs) := by
  induction exprs generalizing sheet with
  | nil => exact ⟨[], [], .finished rooted.merged_nil⟩
  | cons expr rest inductionHypothesis =>
      rcases rooted.merge_cases (readable expr List.mem_cons_self) with
        ⟨nodes, new, middle, step, merged⟩ | ⟨fault, forest, refused, step, spared⟩
      · obtain ⟨others, further, merges⟩ := inductionHypothesis merged.rooted fun other later => by
          rw [kind, merged.dialect]
          exact readable other (List.mem_cons_of_mem expr later)
        rw [mergeAll, step]
        exact ⟨_, _, merged.merges rooted merges⟩
      · rw [mergeAll, step]
        exact ⟨[], [], .stopped rfl rooted.merged_nil refused spared⟩

/-! ### Exchanging -/

theorem perm_replace {nodes : List Handle} {old new : Handle} (member : old ∈ nodes) :
    (nodes.replace old new).Perm (new :: nodes.erase old) := by
  induction nodes with
  | nil => cases member
  | cons node rest inductionHypothesis =>
      by_cases same : node = old
      · subst same
        rw [List.replace_cons_self, List.erase_cons_head]
      · have later : old ∈ rest := (List.mem_cons.mp member).resolve_left (Ne.symm same)
        rw [List.replace_cons, beq_false_of_ne (Ne.symm same),
          List.erase_cons_tail (by simpa using same)]
        exact ((inductionHypothesis later).cons node).trans (.swap new node _)

theorem Rooted.exchange (rooted : sheet.Rooted) {expr : Expr}
    (readable : expr.Readable sheet.kind) {node replacement : Handle} {forest : Forest}
    (grafted : sheet.forest.Grafted expr replacement forest) (listed : node ∈ sheet.listed) :
    ({ sheet with
      forest := forest.removeTree node
      listed := sheet.listed.replace node replacement } : Sheet).Rooted ∧
      (forest.removeTree node).table = forest.table := by
  -- The new tree is listed and the old one removed, up to the order of the list.
  obtain ⟨grown, -⟩ := rooted.grafted readable grafted
  obtain ⟨removed, table⟩ := grown.removeTree (List.mem_append_left _ listed)
  refine ⟨removed.of_perm ?_, table⟩
  rw [List.erase_append_left _ listed]
  exact (perm_replace listed).trans (List.perm_append_singleton _ _).symm

/-! ### Staying rooted -/

/-- After the step the sheet is rooted, and its variables are sound if they were before. -/
structure Leads (sheet after : Sheet) : Prop where
  rooted : after.Rooted
  sound : sheet.table.Sound sheet.kind → after.table.Sound after.kind

theorem Leads.refl (rooted : sheet.Rooted) : sheet.Leads sheet :=
  ⟨rooted, id⟩

theorem Leads.trans {middle after : Sheet} (first : sheet.Leads middle)
    (second : middle.Leads after) : sheet.Leads after :=
  ⟨second.rooted, second.sound ∘ first.sound⟩

theorem Holds.leads {after : Sheet} {exprs : List Expr} {table : Variables}
    (holds : after.Holds sheet.dialect exprs table)
    (sound : sheet.table.Sound sheet.kind → table.Sound sheet.kind) : sheet.Leads after := by
  refine ⟨holds.rooted, fun before => ?_⟩
  rw [holds.table, kind, holds.dialect]
  exact sound before

theorem Rooted.leads_withTable (rooted : sheet.Rooted) {table : Variables}
    (sound : sheet.table.Sound sheet.kind → table.Sound sheet.kind) :
    sheet.Leads (sheet.withTable table) :=
  (rooted.holds.withTable table).leads sound

theorem Rooted.leads_refreshRoot (rooted : sheet.Rooted) : sheet.Leads sheet.refreshRoot :=
  rooted.holds.refreshRoot.leads id

theorem Rooted.leads_prune (rooted : sheet.Rooted) : sheet.Leads sheet.prune :=
  rooted.leads_withTable fun sound => sound.filter _

end Sheet

end Worksheet
