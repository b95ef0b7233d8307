import Worksheet.Pool
import Mathlib.Data.List.Nodup

/-!
# Free slots

A pool is well formed when its list of free slots names every empty slot, and each
of them once.  Then a new value never overwrites another one, and the size of the
pool counts the values that can be reached.
-/

namespace Worksheet.Pool

universe u

variable {α : Type u}

structure WellFormed (pool : Pool α) : Prop where
  nodup_free : pool.free.Nodup
  mem_free_iff : ∀ index,
    index ∈ pool.free ↔ ∃ generation, pool.slots[index]? = some ⟨generation, none⟩

theorem wellFormed_empty : (empty : Pool α).WellFormed where
  nodup_free := List.nodup_nil
  mem_free_iff := by simp [empty]

theorem not_mem_free_of_get? {pool : Pool α} (formed : pool.WellFormed) {handle : Handle}
    {value : α} (found : pool.get? handle = some value) : handle.index ∉ pool.free := by
  intro member
  obtain ⟨generation, located⟩ := (formed.mem_free_iff _).mp member
  rw [get?_eq_some_iff.mp found] at located
  simp at located

/-! ### Insertion -/

theorem insert_of_full {pool : Pool α} (full : pool.free = []) (value : α) :
    pool.insert value =
      (⟨pool.slots.size, 0⟩, { pool with slots := pool.slots.push ⟨0, some value⟩ }) := by
  rw [insert, full]

theorem insert_of_free {pool : Pool α} (formed : pool.WellFormed) {index : Nat} {free : List Nat}
    (first : pool.free = index :: free) (value : α) :
    ∃ generation, pool.slots[index]? = some ⟨generation, none⟩ ∧
      pool.insert value = (⟨index, generation⟩,
        ⟨pool.slots.modify index fun slot => { slot with content := some value }, free⟩) := by
  obtain ⟨generation, located⟩ :=
    (formed.mem_free_iff index).mp (first ▸ List.mem_cons_self)
  refine ⟨generation, located, ?_⟩
  rw [insert, first]
  simp [located]

theorem get?_insert_handle {pool : Pool α} (formed : pool.WellFormed) (value : α) :
    pool.get? (pool.insert value).1 = none := by
  cases free : pool.free with
  | nil => simp [insert_of_full free, get?]
  | cons index rest =>
      obtain ⟨generation, located, made⟩ := insert_of_free formed free value
      simp [made, get?, located]

theorem get?_insert {pool : Pool α} (formed : pool.WellFormed) (value : α) (other : Handle) :
    (pool.insert value).2.get? other =
      if other = (pool.insert value).1 then some value else pool.get? other := by
  obtain ⟨index, generation⟩ := other
  cases free : pool.free with
  | nil =>
      rw [insert_of_full free, get?, get?, Array.getElem?_push]
      by_cases last : index = pool.slots.size
      · simp [last, eq_comm]
      · simp [last]
  | cons reused rest =>
      obtain ⟨current, located, made⟩ := insert_of_free formed free value
      rw [made, get?, get?, Array.getElem?_modify]
      by_cases here : reused = index
      · subst index
        simp [located, eq_comm]
      · simp [here, Ne.symm here]

theorem wellFormed_insert {pool : Pool α} (formed : pool.WellFormed) (value : α) :
    (pool.insert value).2.WellFormed := by
  cases free : pool.free with
  | nil =>
      rw [insert_of_full free]
      refine ⟨formed.nodup_free, fun index => ?_⟩
      rw [formed.mem_free_iff, Array.getElem?_push]
      split
      next last => simp [last]
      next => rfl
  | cons reused rest =>
      obtain ⟨current, located, made⟩ := insert_of_free formed free value
      have ⟨absent, nodup⟩ := List.nodup_cons.mp (free ▸ formed.nodup_free)
      rw [made]
      refine ⟨nodup, fun index => ?_⟩
      have member := formed.mem_free_iff index
      rw [free, List.mem_cons] at member
      rw [Array.getElem?_modify]
      by_cases here : reused = index
      · subst index
        simp [absent]
      · rw [if_neg here, ← member]
        simp [Ne.symm here]

/-! ### Changes and erasure -/

theorem wellFormed_modify {pool : Pool α} (formed : pool.WellFormed) (handle : Handle)
    (change : α → α) : (pool.modify handle change).WellFormed := by
  unfold modify
  split
  next live =>
    refine ⟨formed.nodup_free, fun index => ?_⟩
    rw [formed.mem_free_iff, Array.getElem?_modify]
    split
    next here =>
      cases located : pool.slots[index]? with
      | none => simp
      | some slot =>
          cases slot
          simp
    next => rfl
  next => exact formed

theorem wellFormed_erase {pool : Pool α} (formed : pool.WellFormed) (handle : Handle) :
    (pool.erase handle).WellFormed := by
  unfold erase
  split
  next live =>
    obtain ⟨value, found⟩ := Option.isSome_iff_exists.mp live
    have located := get?_eq_some_iff.mp found
    refine ⟨List.nodup_cons.mpr ⟨not_mem_free_of_get? formed found, formed.nodup_free⟩,
      fun index => ?_⟩
    rw [List.mem_cons, formed.mem_free_iff, Array.getElem?_modify]
    by_cases here : handle.index = index
    · rw [if_pos here, ← here, located]
      simp
    · rw [if_neg here]
      simp [Ne.symm here]
  next => exact formed

theorem wellFormed_eraseAll {pool : Pool α} (formed : pool.WellFormed) (handles : List Handle) :
    (handles.foldl erase pool).WellFormed := by
  induction handles generalizing pool with
  | nil => exact formed
  | cons handle rest inductionHypothesis =>
      exact inductionHypothesis (wellFormed_erase formed handle)

theorem get?_eraseAll (pool : Pool α) (handles : List Handle) (other : Handle) :
    (handles.foldl erase pool).get? other =
      if other ∈ handles then none else pool.get? other := by
  induction handles generalizing pool with
  | nil => rfl
  | cons handle rest inductionHypothesis =>
      rw [List.foldl_cons, inductionHypothesis, get?_erase]
      by_cases here : other = handle <;> simp [here]

/-! ### The handles in use -/

theorem mem_handles_iff {pool : Pool α} {handle : Handle} :
    handle ∈ pool.handles ↔ ∃ value, pool.get? handle = some value := by
  unfold handles
  rw [List.mem_filterMap]
  constructor
  · rintro ⟨index, -, made⟩
    obtain ⟨⟨generation, content⟩, located, made⟩ := Option.bind_eq_some_iff.mp made
    obtain ⟨value, filled, rfl⟩ := Option.map_eq_some_iff.mp made
    exact ⟨value, get?_eq_some_iff.mpr (by rw [located, ← filled])⟩
  · rintro ⟨value, found⟩
    have located := get?_eq_some_iff.mp found
    refine ⟨handle.index, ?_, by simp [located]⟩
    exact List.mem_range.mpr (Array.getElem?_eq_some_iff.mp located).1

theorem nodup_handles (pool : Pool α) : pool.handles.Nodup := by
  refine List.Nodup.filterMap (fun first second handle left right => ?_) List.nodup_range
  obtain ⟨_, _, left⟩ := Option.bind_eq_some_iff.mp left
  obtain ⟨_, _, right⟩ := Option.bind_eq_some_iff.mp right
  obtain ⟨_, _, rfl⟩ := Option.map_eq_some_iff.mp left
  obtain ⟨_, _, same⟩ := Option.map_eq_some_iff.mp right
  exact (congrArg Handle.index same).symm

theorem get?_clear (pool : Pool α) (handle : Handle) : pool.clear.get? handle = none := by
  rw [clear, get?_eraseAll]
  split
  · rfl
  next missing =>
    rw [Option.eq_none_iff_forall_not_mem]
    exact fun value found => missing (mem_handles_iff.mpr ⟨value, found⟩)

theorem wellFormed_clear {pool : Pool α} (formed : pool.WellFormed) : pool.clear.WellFormed :=
  wellFormed_eraseAll formed pool.handles

theorem size_eq_length_handles {pool : Pool α} (formed : pool.WellFormed) :
    pool.size = pool.handles.length := by
  let isEmpty (index : Nat) : Bool := (pool.slots[index]?.bind Slot.content).isNone
  have free : pool.free.Perm ((List.range pool.slots.size).filter isEmpty) := by
    refine (List.perm_ext_iff_of_nodup formed.nodup_free (List.nodup_range.filter _)).mpr ?_
    intro index
    rw [formed.mem_free_iff, List.mem_filter, List.mem_range]
    constructor
    · rintro ⟨generation, located⟩
      exact ⟨(Array.getElem?_eq_some_iff.mp located).1, by simp [isEmpty, located]⟩
    · rintro ⟨bound, unused⟩
      refine ⟨pool.slots[index].generation, ?_⟩
      have content : pool.slots[index].content = none := by simpa [isEmpty, bound] using unused
      rw [Array.getElem?_eq_getElem bound, ← content]
  have used : pool.handles.length = (List.range pool.slots.size).countP (!isEmpty ·) := by
    rw [handles, List.length_filterMap_eq_countP]
    refine List.countP_congr fun index _ => ?_
    cases located : pool.slots[index]? with
    | none => simp [isEmpty, located]
    | some slot => cases content : slot.content <;> simp [isEmpty, located, content]
  have all := List.length_eq_countP_add_countP (l := List.range pool.slots.size) isEmpty
  rw [List.length_range] at all
  rw [size, free.length_eq, used, ← List.countP_eq_length_filter]
  simp only [Bool.not_eq_true, Bool.decide_eq_false] at all
  omega

end Worksheet.Pool
