import Worksheet.Fault
import Worksheet.Variables.Entry

/-!
The table of variables.

A name is unknown, registered without a value, or registered with a value.  The
entries are kept in the order of their names, so that a table is no more than the
answers it gives.
-/

namespace Worksheet

structure Variables where
  entries : List Entry
  sorted : entries.Pairwise fun left right => left.1 < right.1

namespace Variables

def empty : Variables := ⟨[], .nil⟩

def find? (table : Variables) (name : String) : Option (Option Number) :=
  table.entries.lookup name

def isRegistered (table : Variables) (name : String) : Bool :=
  (table.find? name).isSome

def value? (table : Variables) (name : String) : Option Number :=
  (table.find? name).join

def names (table : Variables) : List String :=
  table.entries.map (·.1)

def size (table : Variables) : Nat :=
  table.entries.length

def put (table : Variables) (name : String) (value : Option Number) : Variables :=
  ⟨Entry.put name value table.entries, Entry.pairwise_put name value table.sorted⟩

def set (table : Variables) (name : String) (value : Number) : Variables :=
  table.put name (some value)

/-- Leaves a name registered without a value. -/
def clear (table : Variables) (name : String) : Variables :=
  table.put name none

/-- Registers a name without a value, unless it is registered already. -/
def declare (table : Variables) (name : String) : Variables :=
  if table.isRegistered name then table else table.clear name

/-- Registers a name and settles its value: a new value is taken over where there
is none, and has to agree with the old one where there is one. -/
def resolve (table : Variables) (name : String) (provided : Option Number) :
    Except Fault (Option Number × Variables) :=
  match table.find? name, provided with
  | none, _ => .ok (provided, table.put name provided)
  | some none, some value => .ok (some value, table.set name value)
  | some none, none => .ok (none, table)
  | some (some registered), none => .ok (some registered, table)
  | some (some registered), some value =>
      if registered.agrees value then .ok (some registered, table)
      else .error (.conflictingValue name registered value)

def assign (table : Variables) (name : String) (provided : Option Number) :
    Except Fault Variables :=
  match provided with
  | some value => .ok (table.set name value)
  | none => .error .nothingToSet

def filter (table : Variables) (keep : String → Bool) : Variables :=
  ⟨table.entries.filter fun entry => keep entry.1, table.sorted.filter _⟩

def erase (table : Variables) (name : String) : Variables :=
  table.filter (· ≠ name)

/-- Takes every value away and keeps every name. -/
def clearAll (table : Variables) : Variables :=
  ⟨table.entries.map fun entry => (entry.1, none),
    List.pairwise_map.mpr table.sorted⟩

def valued (table : Variables) : List (String × Number) :=
  table.entries.filterMap fun (name, value) => value.map fun number => (name, number)

def sameValue : Option Number → Option Number → Bool
  | none, none => true
  | some left, some right => left.agrees right
  | _, _ => false

/-- The same names with agreeing values. -/
def agrees (left right : Variables) : Bool :=
  left.names = right.names &&
    (left.entries.zip right.entries).all fun (first, second) => sameValue first.2 second.2

@[ext]
theorem ext {left right : Variables} (same : left.entries = right.entries) : left = right := by
  cases left
  cases right
  cases same
  rfl

/-! ### What is found after a change -/

@[simp]
theorem find?_empty (name : String) : empty.find? name = none := rfl

theorem find?_put (table : Variables) (name other : String) (value : Option Number) :
    (table.put name value).find? other = if other = name then some value else table.find? other :=
  Entry.lookup_put name other value table.entries

theorem find?_filter (table : Variables) (keep : String → Bool) (name : String) :
    (table.filter keep).find? name = if keep name then table.find? name else none :=
  Entry.lookup_filter keep name table.entries

theorem find?_erase (table : Variables) (name other : String) :
    (table.erase name).find? other = if other = name then none else table.find? other := by
  rw [erase, find?_filter]
  by_cases same : other = name <;> simp [same]

theorem find?_clearAll (table : Variables) (name : String) :
    table.clearAll.find? name = (table.find? name).map fun _ => none :=
  Entry.lookup_map_none name table.entries

theorem eq_of_find? {left right : Variables} (same : ∀ name, left.find? name = right.find? name) :
    left = right :=
  ext (Entry.eq_of_lookup left.sorted right.sorted same)

theorem find?_declare (table : Variables) (name other : String) :
    (table.declare name).find? other =
      if other = name then some ((table.find? name).getD none) else table.find? other := by
  unfold declare isRegistered
  split
  next registered =>
    obtain ⟨value, found⟩ := Option.isSome_iff_exists.mp registered
    split
    next same => rw [same, found, Option.getD_some]
    next => rfl
  next unknown =>
    have missing : table.find? name = none := by simpa using unknown
    rw [clear, find?_put, missing, Option.getD_none]

end Variables

end Worksheet
