import Worksheet.Pool

/-!
# Pools of changed values

A pool gives out its slots and takes them back without a look at the values in them.  Hence
it does not matter whether the values are changed before an operation or after it, and a
pool is known from its slots and from what its handles find.
-/

namespace Worksheet.Pool

universe u

variable {α β : Type u} {change : α → β} {pool : Pool α} {handle : Handle}

def Slot.map (change : α → β) (slot : Slot α) : Slot β :=
  ⟨slot.generation, slot.content.map change⟩

def map (change : α → β) (pool : Pool α) : Pool β :=
  ⟨pool.slots.map (Slot.map change), pool.free⟩

@[simp]
theorem get?_map : (pool.map change).get? handle = (pool.get? handle).map change := by
  rw [get?, get?, map, Array.getElem?_map]
  cases pool.slots[handle.index]? with
  | none => rfl
  | some slot =>
      simp only [Option.map_some, Option.bind_some, Slot.map]
      split <;> rfl

@[simp]
theorem contains_map : (pool.map change).contains handle = pool.contains handle := by
  simp [contains]

/-! ### Operations -/

theorem map_modifySlot {slots : Array (Slot α)} {outer : Slot β → Slot β}
    {inner : Slot α → Slot α} (index : Nat)
    (same : ∀ slot, outer (slot.map change) = (inner slot).map change) :
    (slots.map (Slot.map change)).modify index outer =
      (slots.modify index inner).map (Slot.map change) := by
  apply Array.ext_getElem?
  intro other
  simp only [Array.getElem?_map, Array.getElem?_modify]
  split
  next => simp [Function.comp_def, same]
  next => rfl

theorem insert_map (value : α) :
    (pool.map change).insert (change value) =
      ((pool.insert value).1, (pool.insert value).2.map change) := by
  cases free : pool.free with
  | nil => simp [insert, map, free, Slot.map]
  | cons index rest =>
      simp only [insert, map, free, Array.getElem?_map, Option.map_map]
      congr 2
      exact map_modifySlot index fun slot => rfl

theorem modify_map {outer : β → β} {inner : α → α}
    (same : ∀ value, outer (change value) = change (inner value)) :
    (pool.map change).modify handle outer = (pool.modify handle inner).map change := by
  rw [modify, modify, contains_map]
  split
  next =>
    simp only [map, mk.injEq, and_true]
    apply map_modifySlot
    intro slot
    simp [Slot.map, Function.comp_def, same]
  next => rfl

theorem erase_map : (pool.map change).erase handle = (pool.erase handle).map change := by
  rw [erase, erase, contains_map]
  split
  next =>
    simp only [map, mk.injEq, and_true]
    exact map_modifySlot handle.index fun slot => rfl
  next => rfl

theorem hide_map : (pool.map change).hide handle = (pool.hide handle).map change := by
  rw [hide, hide, contains_map]
  split
  next =>
    simp only [map, mk.injEq, and_true]
    exact map_modifySlot handle.index fun slot => rfl
  next => rfl

/-! ### Equality -/

theorem map_modify_of_forgotten {inner : α → α}
    (forgotten : ∀ value, pool.get? handle = some value → change (inner value) = change value) :
    (pool.modify handle inner).map change = pool.map change := by
  unfold modify
  split
  next live =>
    obtain ⟨value, found⟩ := Option.isSome_iff_exists.mp live
    have located := get?_eq_some_iff.mp found
    simp only [map, mk.injEq, and_true]
    apply Array.ext_getElem?
    intro other
    simp only [Array.getElem?_map, Array.getElem?_modify]
    split
    next here =>
      subst here
      simp [located, Slot.map, forgotten value found]
    next => rfl
  next => rfl

theorem eq_of_map_eq {other : Pool α} (slots : pool.map change = other.map change)
    (found : ∀ handle, pool.get? handle = other.get? handle) : pool = other := by
  have free : (pool.map change).free = (other.map change).free := by rw [slots]
  have same (index : Nat) : pool.slots[index]?.map (Slot.map change) =
      other.slots[index]?.map (Slot.map change) := by
    have mapped := congrArg (fun pool => pool.slots[index]?) slots
    simpa only [map, Array.getElem?_map] using mapped
  suffices equal : pool.slots = other.slots by
    cases pool
    cases other
    rw [mk.injEq]
    exact ⟨equal, free⟩
  apply Array.ext_getElem?
  intro index
  have mapped := same index
  cases located : pool.slots[index]? with
  | none =>
      rw [located, Option.map_none, eq_comm, Option.map_eq_none_iff] at mapped
      exact mapped.symm
  | some slot =>
      rw [located, Option.map_some, eq_comm, Option.map_eq_some_iff] at mapped
      obtain ⟨slot', located', mapped⟩ := mapped
      obtain ⟨generation, content⟩ := slot
      obtain ⟨generation', content'⟩ := slot'
      simp only [Slot.map, Slot.mk.injEq] at mapped
      obtain ⟨rfl, contents⟩ := mapped
      cases content with
      | none =>
          rw [Option.map_none, Option.map_eq_none_iff] at contents
          rw [located', contents]
      | some value =>
          have here := (found ⟨index, generation'⟩).symm.trans (get?_eq_some_iff.mpr located)
          exact (get?_eq_some_iff.mp here).symm

end Worksheet.Pool
