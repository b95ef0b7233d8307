import Worksheet.Proofs.Pool.FreeSlots

/-!
# Generations of slots

A slot moves on to its next generation when its value is erased, and only then.  Hence
the generations tell which slots have been emptied, also if they are filled again.
-/

namespace Worksheet.Pool

universe u

variable {α : Type u} {pool before middle after : Pool α} {handle : Handle} {index : Nat}

/-- The generation of a slot.  A slot that is still to be made has the first one. -/
def generation (pool : Pool α) (index : Nat) : UInt32 :=
  (pool.slots[index]?.map Slot.generation).getD 0

def isFilled (pool : Pool α) (index : Nat) : Bool :=
  (pool.slots[index]?.bind Slot.content).isSome

theorem contains_iff :
    pool.contains handle = true ↔
      pool.isFilled handle.index = true ∧ pool.generation handle.index = handle.generation := by
  rw [contains, get?, isFilled, generation]
  cases pool.slots[handle.index]? with
  | none => simp
  | some slot => by_cases same : slot.generation = handle.generation <;> simp [same]

/-! ### Single changes -/

theorem generation_modify (pool : Pool α) (handle : Handle) (change : α → α) :
    (pool.modify handle change).generation = pool.generation := by
  funext index
  unfold modify
  split
  next =>
    rw [generation, generation, Array.getElem?_modify]
    split
    next => cases pool.slots[index]? <;> rfl
    next => rfl
  next => rfl

theorem isFilled_modify (pool : Pool α) (handle : Handle) (change : α → α) :
    (pool.modify handle change).isFilled = pool.isFilled := by
  funext index
  unfold modify
  split
  next =>
    rw [isFilled, isFilled, Array.getElem?_modify]
    split
    next => cases pool.slots[index]? <;> simp
    next => rfl
  next => rfl

theorem generation_insert (formed : pool.WellFormed) (value : α) :
    (pool.insert value).2.generation = pool.generation := by
  funext index
  cases free : pool.free with
  | nil =>
      rw [insert_of_full free, generation, generation, Array.getElem?_push]
      split
      next last => simp [last]
      next => rfl
  | cons reused rest =>
      obtain ⟨current, located, made⟩ := insert_of_free formed free value
      rw [made, generation, generation, Array.getElem?_modify]
      split
      next => cases pool.slots[index]? <;> rfl
      next => rfl

theorem isFilled_insert (formed : pool.WellFormed) (value : α)
    (filled : pool.isFilled index = true) : (pool.insert value).2.isFilled index = true := by
  cases free : pool.free with
  | nil =>
      rw [insert_of_full free, isFilled, Array.getElem?_push]
      split
      next => rfl
      next => exact filled
  | cons reused rest =>
      obtain ⟨current, located, made⟩ := insert_of_free formed free value
      rw [made, isFilled, Array.getElem?_modify]
      split
      next here =>
        subst here
        simp [located]
      next => exact filled

theorem generation_erase (pool : Pool α) (handle : Handle) (index : Nat) :
    (pool.erase handle).generation index =
      if pool.contains handle = true ∧ index = handle.index then pool.generation index + 1
      else pool.generation index := by
  unfold erase
  split
  next live =>
    obtain ⟨value, found⟩ := Option.isSome_iff_exists.mp live
    rw [generation, generation, Array.getElem?_modify]
    by_cases here : index = handle.index
    · simp [here, live, get?_eq_some_iff.mp found]
    · simp [here, Ne.symm here]
  next dead => rw [if_neg fun both => dead both.1]

theorem isFilled_erase (pool : Pool α) (handle : Handle) (index : Nat) :
    (pool.erase handle).isFilled index =
      if pool.contains handle = true ∧ index = handle.index then false
      else pool.isFilled index := by
  unfold erase
  split
  next live =>
    obtain ⟨value, found⟩ := Option.isSome_iff_exists.mp live
    rw [isFilled, isFilled, Array.getElem?_modify]
    by_cases here : index = handle.index
    · simp [here, live, get?_eq_some_iff.mp found]
    · simp [here, Ne.symm here]
  next dead => rw [if_neg fun both => dead both.1]

/-! ### Changes of all slots -/

/-- The same slots are filled, and in the same generation. -/
structure Steady (before after : Pool α) : Prop where
  generation : after.generation = before.generation
  isFilled : after.isFilled = before.isFilled

/-- No slot is emptied. -/
def Keeps (before after : Pool α) : Prop :=
  ∀ index, after.generation index = before.generation index ∧
    (before.isFilled index = true → after.isFilled index = true)

/-- Slots are at most emptied, and each of those has moved on by one generation. -/
def Sheds (before after : Pool α) : Prop :=
  ∀ index, after.generation index = before.generation index ∧
      after.isFilled index = before.isFilled index ∨
    before.isFilled index = true ∧ after.isFilled index = false ∧
      after.generation index = before.generation index + 1

/-- Every slot is kept, or it has moved on by one generation and is left empty. -/
def Settles (before after : Pool α) : Prop :=
  ∀ index, after.generation index = before.generation index ∧
      (before.isFilled index = true → after.isFilled index = true) ∨
    after.isFilled index = false ∧ after.generation index = before.generation index + 1

theorem Steady.refl (pool : Pool α) : pool.Steady pool :=
  ⟨rfl, rfl⟩

theorem Steady.trans (first : before.Steady middle) (second : middle.Steady after) :
    before.Steady after :=
  ⟨second.generation.trans first.generation, second.isFilled.trans first.isFilled⟩

theorem Steady.keeps (steady : before.Steady after) : before.Keeps after := by
  intro index
  rw [steady.generation, steady.isFilled]
  exact ⟨rfl, id⟩

theorem Steady.sheds (steady : before.Steady after) : before.Sheds after := by
  intro index
  rw [steady.generation, steady.isFilled]
  exact .inl ⟨rfl, rfl⟩

theorem Keeps.trans (first : before.Keeps middle) (second : middle.Keeps after) :
    before.Keeps after := by
  intro index
  obtain ⟨generation, filled⟩ := first index
  obtain ⟨generation', filled'⟩ := second index
  exact ⟨generation'.trans generation, filled' ∘ filled⟩

theorem Keeps.contains (keeps : before.Keeps after) (live : before.contains handle = true) :
    after.contains handle = true := by
  obtain ⟨filled, generation⟩ := contains_iff.mp live
  obtain ⟨generation', filled'⟩ := keeps handle.index
  exact contains_iff.mpr ⟨filled' filled, generation'.trans generation⟩

theorem Keeps.settles (keeps : before.Keeps after) : before.Settles after :=
  fun index => .inl (keeps index)

/-- What is emptied is not emptied again. -/
theorem Settles.sheds (first : before.Settles middle) (second : middle.Sheds after) :
    before.Settles after := by
  intro index
  rcases second index with ⟨generation, filled⟩ | ⟨filled, emptied, moved⟩
  · rw [generation, filled]
    exact first index
  · rcases first index with ⟨generation, -⟩ | ⟨empty, -⟩
    · rw [← generation]
      exact .inr ⟨emptied, moved⟩
    · rw [empty] at filled
      cases filled

theorem Sheds.settles (sheds : before.Sheds after) : before.Settles after :=
  Settles.sheds (Steady.refl before).keeps.settles sheds

theorem Keeps.then (first : before.Keeps middle) (second : middle.Settles after) :
    before.Settles after := by
  intro index
  obtain ⟨generation, filled⟩ := first index
  rw [← generation]
  exact (second index).imp_left fun kept => ⟨kept.1, kept.2 ∘ filled⟩

theorem steady_modify (pool : Pool α) (handle : Handle) (change : α → α) :
    pool.Steady (pool.modify handle change) :=
  ⟨generation_modify pool handle change, isFilled_modify pool handle change⟩

theorem keeps_insert (formed : pool.WellFormed) (value : α) :
    pool.Keeps (pool.insert value).2 :=
  fun index => ⟨congrFun (generation_insert formed value) index, isFilled_insert formed value⟩

theorem sheds_erase (pool : Pool α) (handle : Handle) : pool.Sheds (pool.erase handle) := by
  intro index
  rw [generation_erase, isFilled_erase]
  split
  next here =>
    obtain ⟨live, rfl⟩ := here
    exact .inr ⟨(contains_iff.mp live).1, rfl, rfl⟩
  next => exact .inl ⟨rfl, rfl⟩

theorem Sheds.trans (first : before.Sheds middle) (second : middle.Sheds after) :
    before.Sheds after := by
  intro index
  rcases second index with ⟨generation, filled⟩ | ⟨filled, emptied, moved⟩
  · rw [generation, filled]
    exact first index
  · rcases first index with ⟨generation, same⟩ | ⟨-, empty, -⟩
    · rw [← generation, ← same]
      exact .inr ⟨filled, emptied, moved⟩
    · rw [empty] at filled
      cases filled

theorem sheds_eraseAll (pool : Pool α) (handles : List Handle) :
    pool.Sheds (handles.foldl erase pool) := by
  induction handles generalizing pool with
  | nil => exact (Steady.refl pool).sheds
  | cons handle rest inductionHypothesis =>
      exact (sheds_erase pool handle).trans (inductionHypothesis (pool.erase handle))

/-! ### Ageing -/

/-- Slots have moved on by at most so many generations. -/
def Ages (before after : Pool α) (limit : Nat) : Prop :=
  ∀ index, ∃ steps ≤ limit,
    after.generation index = before.generation index + UInt32.ofNat steps

theorem Steady.ages (steady : before.Steady after) : before.Ages after 0 :=
  fun index => ⟨0, Nat.le_refl 0, by simp [steady.generation]⟩

theorem Settles.ages (settles : before.Settles after) : before.Ages after 1 := by
  intro index
  rcases settles index with ⟨same, -⟩ | ⟨-, moved⟩
  · exact ⟨0, Nat.zero_le 1, by simp [same]⟩
  · exact ⟨1, Nat.le_refl 1, by simp [moved]⟩

theorem Ages.mono {limit further : Nat} (ages : before.Ages after limit)
    (more : limit ≤ further) : before.Ages after further := by
  intro index
  obtain ⟨steps, few, moved⟩ := ages index
  exact ⟨steps, Nat.le_trans few more, moved⟩

theorem Ages.trans {limit further : Nat} (first : before.Ages middle limit)
    (second : middle.Ages after further) : before.Ages after (limit + further) := by
  intro index
  obtain ⟨steps, few, moved⟩ := first index
  obtain ⟨more, few', moved'⟩ := second index
  refine ⟨steps + more, Nat.add_le_add few few', ?_⟩
  rw [moved', moved, UInt32.ofNat_add, UInt32.add_assoc]

/-- A handle that has lost its value finds nothing until its slot has been through all
generations. -/
theorem Sheds.contains_eq_false {limit : Nat} (sheds : before.Sheds middle)
    (live : before.contains handle = true) (gone : middle.contains handle = false)
    (ages : middle.Ages after limit) (few : limit + 1 < UInt32.size) :
    after.contains handle = false := by
  obtain ⟨filled, generation⟩ := contains_iff.mp live
  obtain ⟨steps, within, moved⟩ := ages handle.index
  rcases sheds handle.index with ⟨same, still⟩ | ⟨-, -, next⟩
  · have kept := contains_iff.mpr ⟨still.trans filled, same.trans generation⟩
    cases gone.symm.trans kept
  · apply Bool.eq_false_iff.mpr
    intro found
    have again := (contains_iff.mp found).2
    rw [moved, next, generation, UInt32.add_assoc] at again
    have around : UInt32.ofNat (1 + steps) = 0 := by
      rw [UInt32.ofNat_add]
      simpa using again
    have small : 1 + steps < UInt32.size := by omega
    have remainder := congrArg UInt32.toNat around
    rw [UInt32.toNat_ofNat_of_lt' small] at remainder
    simp at remainder

/-! ### Live handles -/

theorem nodup_index_handles (pool : Pool α) : (pool.handles.map Handle.index).Nodup := by
  apply List.Nodup.map_on _ (nodup_handles pool)
  intro first firstLive second secondLive same
  obtain ⟨value, found⟩ := mem_handles_iff.mp firstLive
  obtain ⟨value', found'⟩ := mem_handles_iff.mp secondLive
  by_contra different
  rw [get?_eq_none_of_index found same.symm (Ne.symm different)] at found'
  cases found'

end Worksheet.Pool
