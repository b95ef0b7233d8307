import Mathlib
import Worksheet.Variables.Basic

/-!
# Settling the values of variables

A name is settled with a value or without one, and only another value than its own is
refused.  What is settled changes the entry of its name alone, and an entry only goes
forward: from unknown to registered, and from there to a value that stays.  So demands that
are all met commute, though the answers on the way depend on their order.
-/

namespace Worksheet

/-! ### Entries -/

namespace Entry

/-- What is found for a name after it has been settled, unless it has another value. -/
def settled? : Option (Option Number) → Option Number → Option (Option Number)
  | none, provided | some none, provided => some provided
  | some (some registered), none => some (some registered)
  | some (some registered), some value =>
      if registered.agrees value then some (some registered) else none

/-- Unknown names may come to anything, names without a value to one, and values stay. -/
def Leads (before after : Option (Option Number)) : Prop :=
  before = none ∨ before = some none ∧ after ≠ none ∨ after = before

variable {entry : Option (Option Number)}

theorem Leads.refl (entry : Option (Option Number)) : Leads entry entry :=
  .inr (.inr rfl)

theorem Leads.trans {first second third : Option (Option Number)} (one : Leads first second)
    (other : Leads second third) : Leads first third := by
  rcases one with unknown | ⟨free, known⟩ | rfl
  · exact .inl unknown
  · rcases other with unknown | ⟨-, known⟩ | rfl
    · exact absurd unknown known
    · exact .inr (.inl ⟨free, known⟩)
    · exact .inr (.inl ⟨free, known⟩)
  · exact other

theorem leads_of_settled? {provided value : Option Number}
    (settled : settled? entry provided = some value) : Leads entry (some value) := by
  match entry, provided with
  | none, _ => exact .inl rfl
  | some none, _ => exact .inr (.inl ⟨rfl, Option.some_ne_none value⟩)
  | some (some registered), none =>
      cases settled
      exact .refl _
  | some (some registered), some number =>
      rw [settled?] at settled
      split at settled
      next =>
        cases settled
        exact .refl _
      next => cases settled

theorem agrees_int_iff {registered : Number} {value : Int32} :
    registered.agrees (.int value) = true ↔ registered = .int value := by
  cases registered <;> simp [Number.agrees]

theorem settled?_comm {first second : Option Int32} {value last : Option Number}
    (before : settled? entry (first.map .int) = some value)
    (after : settled? (some value) (second.map .int) = some last) :
    ∃ other, settled? entry (second.map .int) = some other ∧
      settled? (some other) (first.map .int) = some last := by
  -- Once there is a value, it is the same as each of those that are still to come.
  have stays {registered : Number} {provided : Option Int32} {value : Option Number}
      (settled : settled? (some (some registered)) (provided.map .int) = some value) :
      value = some registered ∧ ∀ number, provided = some number → registered = .int number := by
    cases provided with
    | none =>
        cases settled
        exact ⟨rfl, by simp⟩
    | some number =>
        rw [Option.map_some, settled?] at settled
        split at settled
        next agreed =>
          cases settled
          exact ⟨rfl, by simpa using agrees_int_iff.mp agreed⟩
        next => cases settled
  have again {registered : Number} {provided : Option Int32}
      (same : ∀ number, provided = some number → registered = .int number) :
      settled? (some (some registered)) (provided.map .int) = some (some registered) := by
    cases provided with
    | none => rfl
    | some number =>
        rw [Option.map_some, settled?, if_pos (agrees_int_iff.mpr (same number rfl))]
  match entry with
  | some (some registered) =>
      obtain ⟨rfl, one⟩ := stays before
      obtain ⟨rfl, other⟩ := stays after
      exact ⟨_, again other, again one⟩
  | none | some none =>
      cases before
      refine ⟨second.map .int, rfl, ?_⟩
      cases first with
      | none =>
          cases after
          cases second <;> rfl
      | some number =>
          obtain ⟨rfl, same⟩ := stays after
          cases second with
          | none => rfl
          | some other =>
              cases same other rfl
              exact again (by simp)

end Entry

/-! ### Demands -/

/-- A name, with the integer that it is to have if there is one. -/
abbrev Demand := String × Option Int32

namespace Variables

variable {table : Variables} {name : String}

theorem put_of_find? {value : Option Number} (found : table.find? name = some value) :
    table.put name value = table := by
  apply eq_of_find?
  intro other
  rw [find?_put]
  split
  next same => rw [same, found]
  next => rfl

theorem resolve_eq_ok_iff {provided value : Option Number} {after : Variables} :
    table.resolve name provided = .ok (value, after) ↔
      Entry.settled? (table.find? name) provided = some value ∧ after = table.put name value := by
  have kept {found : Option Number} (here : table.find? name = some found) :
      found = value ∧ table = after ↔ found = value ∧ after = table.put name value := by
    refine and_congr_right fun same => ?_
    subst same
    rw [put_of_find? here, eq_comm]
  unfold resolve
  cases found : table.find? name with
  | none => simpa [Entry.settled?] using fun same => by rw [same, eq_comm]
  | some entry =>
      cases entry with
      | none =>
          cases provided with
          | none => simpa [Entry.settled?] using kept found
          | some number => simpa [Entry.settled?, set] using fun same => by rw [same, eq_comm]
      | some registered =>
          cases provided with
          | none => simpa [Entry.settled?] using kept found
          | some number =>
              cases agreed : registered.agrees number with
              | true => simpa [Entry.settled?, agreed] using kept found
              | false => simp [Entry.settled?, agreed]

theorem resolve_eq_error_iff {provided : Option Number} {fault : Fault} :
    table.resolve name provided = .error fault ↔ ∃ registered value,
      table.find? name = some (some registered) ∧ provided = some value ∧
        registered.agrees value = false ∧ fault = .conflictingValue name registered value := by
  unfold resolve
  cases found : table.find? name with
  | none => simp
  | some entry =>
      cases entry with
      | none => cases provided <;> simp
      | some registered =>
          cases provided with
          | none => simp
          | some number =>
              cases agreed : registered.agrees number with
              | true => simp [agreed]
              | false => simpa [agreed] using eq_comm

/-- A demand that is refused leaves the variables as they were. -/
def settle (table : Variables) (demand : Demand) : Except Fault (Option Number) × Variables :=
  match table.resolve demand.1 (demand.2.map .int) with
  | .error fault => (.error fault, table)
  | .ok (value, table) => (.ok value, table)

def settleAll (table : Variables) :
    List Demand → List (Except Fault (Option Number)) × Variables
  | [] => ([], table)
  | demand :: demands =>
      ((table.settle demand).1 :: ((table.settle demand).2.settleAll demands).1,
        ((table.settle demand).2.settleAll demands).2)

def Meets (table : Variables) (demands : List Demand) : Prop :=
  ∀ answer ∈ (table.settleAll demands).1, ∃ value, answer = .ok value

theorem settle_eq_ok_iff {demand : Demand} {value : Option Number} :
    (table.settle demand).1 = .ok value ↔
      Entry.settled? (table.find? demand.1) (demand.2.map .int) = some value := by
  rw [settle]
  cases resolved : table.resolve demand.1 (demand.2.map .int) with
  | error fault =>
      simp only [reduceCtorEq, false_iff]
      intro settled
      cases resolved.symm.trans (resolve_eq_ok_iff.mpr ⟨settled, rfl⟩)
  | ok outcome =>
      have settled := (resolve_eq_ok_iff.mp resolved).1
      simp [settled]

theorem settle_of_ok {demand : Demand} {value : Option Number}
    (met : (table.settle demand).1 = .ok value) :
    (table.settle demand).2 = table.put demand.1 value := by
  rw [settle, resolve_eq_ok_iff.mpr ⟨settle_eq_ok_iff.mp met, rfl⟩]

/-- A name whose demand is met is registered with the answer, which is the integer that it was to
have if there was one. -/
theorem find?_settle_of_ok {demand : Demand} {value : Option Number}
    (met : (table.settle demand).1 = .ok value) :
    (table.settle demand).2.find? demand.1 = some value ∧
      ∀ integer, demand.2 = some integer → value = some (.int integer) := by
  refine ⟨by rw [settle_of_ok met, find?_put, if_pos rfl], fun integer wanted => ?_⟩
  have settled := settle_eq_ok_iff.mp met
  rw [wanted, Option.map_some] at settled
  match found : table.find? demand.1 with
  | none | some none =>
      rw [found] at settled
      cases settled
      rfl
  | some (some registered) =>
      rw [found, Entry.settled?] at settled
      split at settled
      next agreed =>
        cases settled
        rw [Entry.agrees_int_iff.mp agreed]
      next => cases settled

theorem settle_of_error {demand : Demand} {fault : Fault}
    (refused : (table.settle demand).1 = .error fault) : (table.settle demand).2 = table := by
  rw [settle] at refused ⊢
  split
  next => rfl
  next resolved =>
    rw [resolved] at refused
    cases refused

/-- A demand is refused just if its name has another value. -/
theorem settle_eq_error_iff {demand : Demand} {fault : Fault} :
    (table.settle demand).1 = .error fault ↔ ∃ registered value,
      table.find? demand.1 = some (some registered) ∧ demand.2 = some value ∧
        registered ≠ .int value ∧ fault = .conflictingValue demand.1 registered (.int value) := by
  have refused : (table.settle demand).1 = .error fault ↔
      table.resolve demand.1 (demand.2.map .int) = .error fault := by
    rw [settle]
    split <;> simp_all
  rw [refused, resolve_eq_error_iff]
  constructor
  · rintro ⟨registered, number, found, provided, differs, same⟩
    obtain ⟨value, given, rfl⟩ := Option.map_eq_some_iff.mp provided
    exact ⟨registered, value, found, given,
      fun agreed => Bool.eq_false_iff.mp differs (Entry.agrees_int_iff.mpr agreed), same⟩
  · rintro ⟨registered, value, found, given, differs, same⟩
    exact ⟨registered, .int value, found, by rw [given, Option.map_some],
      Bool.eq_false_iff.mpr fun agreed => differs (Entry.agrees_int_iff.mp agreed), same⟩

theorem settleAll_append (table : Variables) (before after : List Demand) :
    table.settleAll (before ++ after) =
      ((table.settleAll before).1 ++ ((table.settleAll before).2.settleAll after).1,
        ((table.settleAll before).2.settleAll after).2) := by
  induction before generalizing table with
  | nil => rfl
  | cons demand rest inductionHypothesis =>
      rw [List.cons_append, settleAll, inductionHypothesis, settleAll]
      rfl

theorem length_settleAll (table : Variables) (demands : List Demand) :
    (table.settleAll demands).1.length = demands.length := by
  induction demands generalizing table with
  | nil => rfl
  | cons demand rest inductionHypothesis => simp [settleAll, inductionHypothesis]

/-! ### Entries go forward -/

theorem leads_settle (table : Variables) (demand : Demand) (other : String) :
    Entry.Leads (table.find? other) ((table.settle demand).2.find? other) := by
  cases met : (table.settle demand).1 with
  | error fault =>
      rw [settle_of_error met]
      exact .refl _
  | ok value =>
      rw [settle_of_ok met, find?_put]
      split
      next same =>
        subst same
        exact Entry.leads_of_settled? (settle_eq_ok_iff.mp met)
      next => exact .refl _

theorem leads_settleAll (table : Variables) (demands : List Demand) (other : String) :
    Entry.Leads (table.find? other) ((table.settleAll demands).2.find? other) := by
  induction demands generalizing table with
  | nil => exact .refl _
  | cons demand rest inductionHypothesis =>
      exact (table.leads_settle demand other).trans (inductionHypothesis _)

/-! ### Demands commute -/

theorem meets_cons_iff {demand : Demand} {demands : List Demand} :
    table.Meets (demand :: demands) ↔
      (∃ value, (table.settle demand).1 = .ok value) ∧
        (table.settle demand).2.Meets demands := by
  simp [Meets, settleAll]

theorem settle_comm {first second : Demand} {value last : Option Number}
    (before : (table.settle first).1 = .ok value)
    (after : ((table.settle first).2.settle second).1 = .ok last) :
    ∃ other earlier, (table.settle second).1 = .ok other ∧
      ((table.settle second).2.settle first).1 = .ok earlier ∧
      ((table.settle second).2.settle first).2 = ((table.settle first).2.settle second).2 := by
  have one := settle_eq_ok_iff.mp before
  have two := settle_eq_ok_iff.mp after
  rw [settle_of_ok before, find?_put] at two
  by_cases same : second.1 = first.1
  · rw [if_pos same] at two
    obtain ⟨other, early, late⟩ := Entry.settled?_comm one two
    have met : (table.settle second).1 = .ok other :=
      settle_eq_ok_iff.mpr (by rw [same, early])
    have again : ((table.settle second).2.settle first).1 = .ok last := by
      rw [settle_eq_ok_iff, settle_of_ok met, find?_put, if_pos same.symm, late]
    refine ⟨other, last, met, again, ?_⟩
    rw [settle_of_ok again, settle_of_ok after, settle_of_ok met, settle_of_ok before, same]
    apply eq_of_find?
    intro name
    simp only [find?_put]
    split <;> rfl
  · rw [if_neg same] at two
    have met : (table.settle second).1 = .ok last := settle_eq_ok_iff.mpr two
    have again : ((table.settle second).2.settle first).1 = .ok value := by
      rw [settle_eq_ok_iff, settle_of_ok met, find?_put, if_neg (Ne.symm same), one]
    refine ⟨last, value, met, again, ?_⟩
    rw [settle_of_ok again, settle_of_ok after, settle_of_ok met, settle_of_ok before]
    apply eq_of_find?
    intro name
    simp only [find?_put]
    by_cases here : name = first.1
    · rw [if_pos here, if_pos here, if_neg fun there => same (there.symm.trans here)]
    · rw [if_neg here, if_neg here]

theorem meets_of_perm {demands other : List Demand} (perm : demands.Perm other)
    (meets : table.Meets demands) :
    table.Meets other ∧ (table.settleAll other).2 = (table.settleAll demands).2 := by
  induction perm generalizing table with
  | nil => exact ⟨meets, rfl⟩
  | cons demand _ inductionHypothesis =>
      obtain ⟨met, later⟩ := meets_cons_iff.mp meets
      obtain ⟨others, same⟩ := inductionHypothesis later
      exact ⟨meets_cons_iff.mpr ⟨met, others⟩, same⟩
  | swap first second rest =>
      obtain ⟨⟨value, before⟩, later⟩ := meets_cons_iff.mp meets
      obtain ⟨⟨last, after⟩, others⟩ := meets_cons_iff.mp later
      obtain ⟨sooner, earlier, met, again, same⟩ := settle_comm before after
      refine ⟨meets_cons_iff.mpr ⟨⟨sooner, met⟩, meets_cons_iff.mpr ⟨⟨earlier, again⟩, ?_⟩⟩, ?_⟩
      · rwa [same]
      · simp only [settleAll, same]
  | trans _ _ firstHypothesis secondHypothesis =>
      obtain ⟨middle, one⟩ := firstHypothesis meets
      obtain ⟨last, two⟩ := secondHypothesis middle
      exact ⟨last, two.trans one⟩

/-- A demand is refused just if its name has another value by then, and then it changes nothing;
otherwise its name is registered with the answer.  Entries only go forward, and demands that are
all met are so in every order, with the same variables in the end. -/
theorem settled_in_any_order (table : Variables) (demands : List Demand) :
    (∀ before name provided after, demands = before ++ (name, provided) :: after →
      let reached := (table.settleAll before).2
      (table.settleAll demands).1[before.length]? = some (reached.settle (name, provided)).1 ∧
      (∀ fault, (reached.settle (name, provided)).1 = .error fault ↔ ∃ registered value,
        reached.find? name = some (some registered) ∧ provided = some value ∧
          registered ≠ .int value ∧ fault = .conflictingValue name registered (.int value)) ∧
      (∀ fault, (reached.settle (name, provided)).1 = .error fault →
        (reached.settle (name, provided)).2 = reached) ∧
      (∀ value, (reached.settle (name, provided)).1 = .ok value →
        (reached.settle (name, provided)).2.find? name = some value ∧
          ∀ integer, provided = some integer → value = some (.int integer)) ∧
      ∀ other, Entry.Leads (reached.find? other) ((table.settleAll demands).2.find? other)) ∧
    (table.Meets demands → ∀ other : List Demand, other.Perm demands →
      table.Meets other ∧ (table.settleAll other).2 = (table.settleAll demands).2) := by
  refine ⟨?_, fun meets other perm => meets_of_perm perm.symm meets⟩
  rintro before name provided after rfl reached
  refine ⟨?_, fun fault => settle_eq_error_iff, fun fault => settle_of_error,
    fun value => find?_settle_of_ok, fun other => ?_⟩
  · rw [settleAll_append, List.getElem?_append_right (by rw [length_settleAll]),
      length_settleAll, Nat.sub_self]
    rfl
  · rw [settleAll_append]
    exact leads_settleAll reached _ other

/-- A conflict leaves the value, and a demand without a value gets it. -/
example : (empty.settleAll [("a", some 1), ("b", none), ("a", some 2), ("a", none)]).1 =
      [.ok (some (.int 1)), .ok none, .error (.conflictingValue "a" (.int 1) (.int 2)),
        .ok (some (.int 1))] ∧
    (empty.settleAll [("a", some 1), ("b", none), ("a", some 2), ("a", none)]).2.entries =
      [("a", some (.int 1)), ("b", none)] := by
  decide

/-- The answers on the way depend on the order. -/
example : (empty.settleAll [("a", none), ("a", some 1)]).1 = [.ok none, .ok (some (.int 1))] ∧
    (empty.settleAll [("a", some 1), ("a", none)]).1 =
      [.ok (some (.int 1)), .ok (some (.int 1))] := by
  decide

end Variables

end Worksheet
