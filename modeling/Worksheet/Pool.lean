/-!
A pool of reusable slots.

A value is reached through the handle that `insert` returned for it.  A slot that
is erased moves on to its next generation, so its old handles find nothing, also
after the slot has been given to another value.  The slot erased last is reused
first.
-/

namespace Worksheet

structure Handle where
  index : Nat
  generation : UInt32
deriving DecidableEq, Repr, Inhabited

instance : ToString Handle := ⟨fun handle => s!"n{handle.index}.{handle.generation}"⟩

universe u

structure Pool.Slot (α : Type u) where
  generation : UInt32
  content : Option α
deriving Repr

structure Pool (α : Type u) where
  slots : Array (Pool.Slot α)
  /-- The indices of the empty slots, the one erased last in front. -/
  free : List Nat
deriving Repr

namespace Pool

variable {α : Type u}

def empty : Pool α := ⟨#[], []⟩

def get? (pool : Pool α) (handle : Handle) : Option α :=
  pool.slots[handle.index]?.bind fun slot =>
    if slot.generation = handle.generation then slot.content else none

def contains (pool : Pool α) (handle : Handle) : Bool :=
  (pool.get? handle).isSome

def size (pool : Pool α) : Nat :=
  pool.slots.size - pool.free.length

def insert (pool : Pool α) (value : α) : Handle × Pool α :=
  match pool.free with
  | [] => (⟨pool.slots.size, 0⟩, { pool with slots := pool.slots.push ⟨0, some value⟩ })
  | index :: free =>
      let generation := (pool.slots[index]?.map Slot.generation).getD 0
      (⟨index, generation⟩,
        { slots := pool.slots.modify index fun slot => { slot with content := some value }
          free := free })

/-- Changes the value behind a handle; a handle without a value changes nothing. -/
def modify (pool : Pool α) (handle : Handle) (change : α → α) : Pool α :=
  if pool.contains handle then
    { pool with
      slots := pool.slots.modify handle.index fun slot =>
        { slot with content := slot.content.map change } }
  else pool

def erase (pool : Pool α) (handle : Handle) : Pool α :=
  if pool.contains handle then
    { slots := pool.slots.modify handle.index fun slot => ⟨slot.generation + 1, none⟩
      free := handle.index :: pool.free }
  else pool

def handles (pool : Pool α) : List Handle :=
  (List.range pool.slots.size).filterMap fun index =>
    pool.slots[index]?.bind fun slot => slot.content.map fun _ => ⟨index, slot.generation⟩

def clear (pool : Pool α) : Pool α :=
  pool.handles.foldl erase pool

/-- The pool without the value behind a handle, the slot being neither renewed
nor offered again.  Walks use it to mark what they have entered. -/
def hide (pool : Pool α) (handle : Handle) : Pool α :=
  if pool.contains handle then
    { pool with
      slots := pool.slots.modify handle.index fun slot => { slot with content := none } }
  else pool

def occupied (pool : Pool α) : Nat :=
  pool.slots.countP fun slot => slot.content.isSome

theorem modify_eq_set {β : Type u} {slots : Array β} {index : Nat} (bound : index < slots.size)
    (change : β → β) : slots.modify index change = slots.set index (change slots[index]) := by
  apply Array.ext_getElem?
  intro other
  rw [Array.getElem?_modify, Array.getElem?_set]
  split
  · subst index
    simp [bound]
  · rfl

theorem occupied_hide_lt {pool : Pool α} {handle : Handle} {value : α}
    (found : pool.get? handle = some value) : (pool.hide handle).occupied < pool.occupied := by
  have live : pool.contains handle = true := by simp [contains, found]
  rw [get?, Option.bind_eq_some_iff] at found
  obtain ⟨slot, located, content⟩ := found
  obtain ⟨bound, here⟩ := Array.getElem?_eq_some_iff.mp located
  have filled : slot.content.isSome = true := by
    split at content
    · simp [content]
    · cases content
  have positive : 0 < pool.occupied :=
    Array.countP_pos_iff.mpr ⟨slot, here ▸ Array.getElem_mem bound, filled⟩
  rw [hide, if_pos live, occupied, modify_eq_set bound, Array.countP_set bound, here]
  unfold occupied at positive ⊢
  simp only [filled, Option.isSome_none, Bool.false_eq_true, if_true, if_false]
  omega

/-! ### What is found after a change -/

theorem get?_eq_some_iff {pool : Pool α} {handle : Handle} {value : α} :
    pool.get? handle = some value ↔
      pool.slots[handle.index]? = some ⟨handle.generation, some value⟩ := by
  rw [get?, Option.bind_eq_some_iff]
  constructor
  · rintro ⟨⟨generation, content⟩, located, found⟩
    split at found
    next same =>
      cases same
      cases found
      exact located
    next => cases found
  · intro located
    exact ⟨_, located, if_pos rfl⟩

theorem get?_eq_none_iff {pool : Pool α} {handle : Handle} :
    pool.get? handle = none ↔ ¬pool.contains handle = true := by
  rw [contains, Option.isSome_iff_ne_none, ne_eq, Classical.not_not]

theorem get?_eq_none_of_index {pool : Pool α} {handle other : Handle} {value : α}
    (found : pool.get? handle = some value) (index : other.index = handle.index)
    (different : other ≠ handle) : pool.get? other = none := by
  rw [Option.eq_none_iff_forall_not_mem]
  intro otherValue otherFound
  have located := get?_eq_some_iff.mp otherFound
  rw [index, get?_eq_some_iff.mp found] at located
  cases other
  cases handle
  simp_all

@[simp]
theorem get?_empty (handle : Handle) : (empty : Pool α).get? handle = none := rfl

/-- Changing the slot of a live handle is noticed through that handle alone, if
the slot then has no value for any other. -/
theorem get?_modifySlot {pool : Pool α} {handle other : Handle} {value : α} {result : Slot α}
    {change : Slot α → Slot α} (free : List Nat) (found : pool.get? handle = some value)
    (changed : change ⟨handle.generation, some value⟩ = result)
    (kept : result.content = none ∨ result.generation = handle.generation) :
    (⟨pool.slots.modify handle.index change, free⟩ : Pool α).get? other =
      if other = handle then result.content else pool.get? other := by
  rw [get?, Array.getElem?_modify]
  split
  next index =>
    rw [← index, get?_eq_some_iff.mp found, Option.map_some, Option.bind_some, changed]
    by_cases same : other = handle
    · rw [if_pos same, same]
      split
      · rfl
      next stale => exact (kept.resolve_right stale).symm
    · rw [if_neg same, get?_eq_none_of_index found index.symm same]
      split
      next generation =>
        refine kept.resolve_right fun old => same ?_
        cases other
        cases handle
        simp_all
      · rfl
  next index =>
    rw [if_neg fun same : other = handle => index (same ▸ rfl)]
    rfl

theorem get?_modify (pool : Pool α) (handle other : Handle) (change : α → α) :
    (pool.modify handle change).get? other =
      if other = handle then (pool.get? handle).map change else pool.get? other := by
  rw [modify]
  split
  next live =>
    obtain ⟨value, found⟩ := Option.isSome_iff_exists.mp live
    rw [get?_modifySlot pool.free found rfl (.inr rfl), found]
  next dead =>
    have missing := get?_eq_none_iff.mpr dead
    split
    next same => rw [same, missing, Option.map_none]
    next => rfl

theorem get?_erase (pool : Pool α) (handle other : Handle) :
    (pool.erase handle).get? other = if other = handle then none else pool.get? other := by
  rw [erase]
  split
  next live =>
    obtain ⟨value, found⟩ := Option.isSome_iff_exists.mp live
    exact get?_modifySlot _ found rfl (.inl rfl)
  next dead =>
    split
    next same => rw [same, get?_eq_none_iff.mpr dead]
    next => rfl

theorem get?_hide (pool : Pool α) (handle other : Handle) :
    (pool.hide handle).get? other = if other = handle then none else pool.get? other := by
  rw [hide]
  split
  next live =>
    obtain ⟨value, found⟩ := Option.isSome_iff_exists.mp live
    exact get?_modifySlot _ found rfl (.inl rfl)
  next dead =>
    split
    next same => rw [same, get?_eq_none_iff.mpr dead]
    next => rfl

end Pool

end Worksheet
