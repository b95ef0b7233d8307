import Worksheet.Number.Basic

/-!
Entries of a table of variables, in the order of their names.

Each name stands once, so that two lists with the same answers are equal.
-/

namespace Worksheet

abbrev Entry := String × Option Number

namespace Entry

/-- Puts an entry into its place, over an older one of the same name. -/
def put (name : String) (value : Option Number) : List Entry → List Entry
  | [] => [(name, value)]
  | entry :: entries =>
      if name < entry.1 then (name, value) :: entry :: entries
      else if name = entry.1 then (name, value) :: entries
      else entry :: put name value entries

theorem fst_mem_put {name : String} {value : Option Number} {entries : List Entry} {entry : Entry}
    (member : entry ∈ put name value entries) : entry.1 = name ∨ entry ∈ entries := by
  induction entries with
  | nil => simp_all [put]
  | cons head rest inductionHypothesis =>
      rw [put] at member
      split at member
      · rcases List.mem_cons.mp member with rfl | tail
        · exact .inl rfl
        · exact .inr tail
      · split at member
        · rcases List.mem_cons.mp member with rfl | tail
          · exact .inl rfl
          · exact .inr (List.mem_cons_of_mem _ tail)
        · rcases List.mem_cons.mp member with rfl | tail
          · exact .inr List.mem_cons_self
          · exact (inductionHypothesis tail).imp_right (List.mem_cons_of_mem _)

theorem pairwise_put (name : String) (value : Option Number) {entries : List Entry}
    (sorted : entries.Pairwise fun left right => left.1 < right.1) :
    (put name value entries).Pairwise fun left right => left.1 < right.1 := by
  induction entries with
  | nil => simp [put]
  | cons head rest inductionHypothesis =>
      have ⟨least, ordered⟩ := List.pairwise_cons.mp sorted
      rw [put]
      split
      next before =>
        refine List.pairwise_cons.mpr ⟨fun entry member => ?_, sorted⟩
        rcases List.mem_cons.mp member with rfl | tail
        · exact before
        · exact String.lt_trans before (least entry tail)
      next notBefore =>
        split
        next same => exact List.pairwise_cons.mpr ⟨fun entry member => same ▸ least entry member, ordered⟩
        next different =>
          refine List.pairwise_cons.mpr ⟨fun entry member => ?_, inductionHypothesis ordered⟩
          rcases fst_mem_put member with rfl | tail
          · exact Std.lt_of_le_of_ne (Std.not_lt.mp notBefore) (Ne.symm different)
          · exact least entry tail

theorem lookup_cons (name : String) (entry : Entry) (entries : List Entry) :
    (entry :: entries).lookup name =
      if name = entry.1 then some entry.2 else entries.lookup name := by
  rw [List.lookup_cons]
  by_cases here : name = entry.1
  · rw [if_pos here, beq_iff_eq.mpr here]
  · rw [if_neg here, beq_false_of_ne here]

theorem lookup_put (name other : String) (value : Option Number) (entries : List Entry) :
    (put name value entries).lookup other =
      if other = name then some value else entries.lookup other := by
  induction entries with
  | nil => exact lookup_cons other (name, value) []
  | cons head rest inductionHypothesis =>
      rw [put]
      split
      · exact lookup_cons other (name, value) (head :: rest)
      · split
        next same =>
          rw [lookup_cons, lookup_cons, same]
          split <;> rfl
        next different =>
          rw [lookup_cons, lookup_cons, inductionHypothesis]
          split
          next here => rw [if_neg (here ▸ Ne.symm different)]
          next => rfl

theorem lookup_filter (keep : String → Bool) (name : String) (entries : List Entry) :
    (entries.filter fun entry => keep entry.1).lookup name =
      if keep name then entries.lookup name else none := by
  induction entries with
  | nil => rw [List.filter_nil, List.lookup_nil, ite_self]
  | cons head rest inductionHypothesis =>
      rw [List.filter_cons, lookup_cons]
      split
      next kept =>
        rw [lookup_cons, inductionHypothesis]
        split
        next here => rw [here, if_pos kept]
        next => rfl
      next dropped =>
        rw [inductionHypothesis]
        split
        next kept => rw [if_neg fun here : name = head.1 => dropped (here ▸ kept)]
        next => rfl

theorem lookup_map_none (name : String) (entries : List Entry) :
    (entries.map fun entry => (entry.1, (none : Option Number))).lookup name =
      (entries.lookup name).map fun _ => none := by
  induction entries with
  | nil => rfl
  | cons head rest inductionHypothesis =>
      rw [List.map_cons, lookup_cons, lookup_cons, inductionHypothesis]
      split <;> rfl

theorem lookup_eq_none_of_lt {name : String} {entries : List Entry}
    (before : ∀ entry ∈ entries, name < entry.1) : entries.lookup name = none :=
  List.lookup_eq_none_iff.mpr fun entry member =>
    bne_iff_ne.mpr (Std.ne_of_lt (before entry member))

theorem lookup_head_eq_none {head : Entry} {rest : List Entry}
    (sorted : (head :: rest).Pairwise fun left right => left.1 < right.1) :
    rest.lookup head.1 = none :=
  lookup_eq_none_of_lt (List.pairwise_cons.mp sorted).1

theorem not_lt_of_lookup {head head' : Entry} {rest rest' : List Entry}
    (sorted : (head' :: rest').Pairwise fun left right => left.1 < right.1)
    (same : ∀ name, (head :: rest).lookup name = (head' :: rest').lookup name) :
    ¬head.1 < head'.1 := by
  intro before
  have found := same head.1
  rw [lookup_cons, if_pos rfl, lookup_eq_none_of_lt] at found
  · cases found
  · intro entry member
    rcases List.mem_cons.mp member with rfl | tail
    · exact before
    · exact String.lt_trans before ((List.pairwise_cons.mp sorted).1 entry tail)

theorem eq_of_lookup {left right : List Entry}
    (sorted : left.Pairwise fun left right => left.1 < right.1)
    (sorted' : right.Pairwise fun left right => left.1 < right.1)
    (same : ∀ name, left.lookup name = right.lookup name) : left = right := by
  induction left generalizing right with
  | nil =>
      cases right with
      | nil => rfl
      | cons head rest =>
          have found := same head.1
          rw [lookup_cons, if_pos rfl] at found
          cases found
  | cons head rest inductionHypothesis =>
      cases right with
      | nil =>
          have found := same head.1
          rw [lookup_cons, if_pos rfl] at found
          cases found
      | cons head' rest' =>
          have name : head.1 = head'.1 :=
            Std.le_antisymm (Std.not_lt.mp (not_lt_of_lookup sorted fun other => (same other).symm))
              (Std.not_lt.mp (not_lt_of_lookup sorted' same))
          have value := same head.1
          rw [lookup_cons, lookup_cons, if_pos rfl, if_pos name, Option.some.injEq] at value
          have rests := inductionHypothesis (List.pairwise_cons.mp sorted).2
            (List.pairwise_cons.mp sorted').2 fun other => by
              by_cases here : other = head.1
              · rw [here, lookup_head_eq_none sorted, name, lookup_head_eq_none sorted']
              · have found := same other
                rwa [lookup_cons, lookup_cons, if_neg here, if_neg (name ▸ here)] at found
          rw [Prod.ext name value, rests]

end Entry

end Worksheet
