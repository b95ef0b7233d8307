import Worksheet.Proofs.Forest.MissingValues

/-!
# Asking for a value that may be missing

Whether a node has a value is found out by a walk of its own, which evaluates nothing.  The
walk and the evaluation come to the same parts, so the one finds something missing just where
the other would stop for want of it, or where an operator that is refused stops it before.
-/

namespace Worksheet

namespace Forest

variable {forest : Forest} {node : Handle} {value : Number}

theorem Linked.hasValue_of_evaluate (linked : forest.Linked)
    (done : ((forest.tree node).evaluate forest.table).1 = .ok value) :
    (forest.tree node).hasValue forest.table = true := by
  have fine := (linked.faultOf_evaluate node).1
  rw [done] at fine
  rw [Tree.hasValue_eq_all, List.all_eq_true]
  intro part inside
  have whole := List.findSome?_eq_none_iff.mp fine.symm part inside
  simp [(Tree.whole_of_fault?_eq_none whole).1]

/-- Where everything is there, only an operator can stop the evaluation. -/
theorem Linked.refuses_of_hasValue (linked : forest.Linked)
    (valued : (forest.tree node).hasValue forest.table = true) {fault : Fault}
    (failed : ((forest.tree node).evaluate forest.table).1 = .error fault) :
    ∃ part ∈ (forest.tree node).parts, part.Refuses forest.table fault := by
  have first := (linked.faultOf_evaluate node).1
  rw [failed] at first
  obtain ⟨part, inside, stops⟩ := List.exists_of_findSome?_eq_some first.symm
  rw [Tree.hasValue_eq_all, List.all_eq_true] at valued
  have whole : part.lacks forest.table = false := by simpa using valued part inside
  exact ⟨part, inside, Tree.refuses_of_fault? stops whole⟩

theorem hasValue_of_not_group {content : Node} (located : forest.node? node = some content)
    (single : content.isGroup = false) :
    forest.hasValue node = (forest.tree node).hasValue forest.table := by
  simp [hasValue, trees_of_not_group located single]

theorem Linked.hasValue_of_value (linked : forest.Linked)
    (done : (forest.value node).1 = .ok value) : forest.hasValue node = true := by
  cases located : forest.node? node with
  | none =>
      rw [Forest.value, located, linked.tree_eq, located] at done
      cases done
  | some content =>
      cases isGroup : content.isGroup with
      | true =>
          obtain ⟨members, rfl⟩ := Node.isGroup_eq_true_iff.mp isGroup
          rw [Forest.value, located] at done
          cases done
      | false =>
          rw [value_of_not_group located isGroup] at done
          rw [hasValue_of_not_group located isGroup]
          exact linked.hasValue_of_evaluate done

theorem value_of_group {members : List Handle}
    (located : forest.node? node = some (.group members)) (valued : forest.hasValue node = true) :
    (forest.value node).1 = .error .groupHasNoValue := by
  rw [Forest.value, located]
  simp [valued]

theorem Linked.value_ne_noValue (linked : forest.Linked)
    (valued : forest.hasValue node = true) : (forest.value node).1 ≠ .error .noValue := by
  intro missing
  cases located : forest.node? node with
  | none =>
      rw [Forest.value, located, linked.tree_eq, located] at missing
      cases missing
  | some content =>
      cases isGroup : content.isGroup with
      | true =>
          obtain ⟨members, rfl⟩ := Node.isGroup_eq_true_iff.mp isGroup
          cases (value_of_group located valued).symm.trans missing
      | false =>
          rw [hasValue_of_not_group located isGroup] at valued
          rw [value_of_not_group located isGroup] at missing
          obtain ⟨part, -, refused⟩ := linked.refuses_of_hasValue valued missing
          exact refused.ne_noValue rfl

theorem tryValue_of_hasValue (valued : forest.hasValue node = true) :
    forest.tryValue node = ((forest.value node).1.map some, (forest.value node).2) := by
  simp [tryValue, valued]

/-- Asking for a value that may be missing answers a value just if the evaluation does, and that
there is none just if the node has none. -/
theorem Reachable.tryValue_agrees (reachable : forest.Reachable) (node : Handle) :
    (∀ value, (forest.tryValue node).1 = .ok (some value) ↔ (forest.value node).1 = .ok value) ∧
    ((forest.tryValue node).1 = .ok none ↔ forest.hasValue node = false) ∧
    (forest.hasValue node = true →
      (forest.value node).1 ≠ .error .noValue ∧ (forest.tryValue node).1 ≠ .error .noValue ∧
      ∀ members, forest.node? node = some (.group members) →
        (forest.value node).1 = .error .groupHasNoValue ∧
          (forest.tryValue node).1 = .error .groupHasNoValue) ∧
    ∀ value answer, (forest.value node).1 = .ok value → (forest.tryValue node).1 = .ok answer →
      (forest.tryValue node).2 = (forest.value node).2 := by
  have linked := reachable.linked
  cases valued : forest.hasValue node with
  | false =>
      have unasked : forest.tryValue node = (.ok none, forest) := by simp [tryValue, valued]
      have valueless (value : Number) : (forest.value node).1 ≠ .ok value := by
        intro done
        cases valued.symm.trans (linked.hasValue_of_value done)
      simp [unasked, valueless]
  | true =>
      have present := linked.value_ne_noValue valued
      have grouped (members : List Handle) (located : forest.node? node = some (.group members)) :
          (forest.value node).1 = .error .groupHasNoValue := value_of_group located valued
      rw [tryValue_of_hasValue valued]
      cases evaluated : (forest.value node).1 with
      | ok value =>
          rw [evaluated] at grouped
          refine ⟨by simp [Except.map], by simp [Except.map], fun _ => ?_, fun _ _ _ _ => rfl⟩
          refine ⟨by simp, by simp [Except.map], fun members located => ?_⟩
          cases grouped members located
      | error fault =>
          rw [evaluated] at present grouped
          refine ⟨by simp [Except.map], by simp [Except.map], fun _ => ?_, fun _ _ _ _ => rfl⟩
          refine ⟨present, by simpa [Except.map] using present, fun members located => ?_⟩
          cases grouped members located
          exact ⟨rfl, rfl⟩

/-- An assignment whose target has been cleared stores its value again, and the group that
holds it has a value and yields none. -/
theorem Reachable.tryValue_agrees_assignment :
    let forest := (⟨.empty, .empty⟩ : Forest).run
      [.variable "x" none, .constant (.int 6), .constant (.int 2),
        .binary .divide (some ⟨1, 0⟩) (some ⟨2, 0⟩), .assignment ⟨0, 0⟩ ⟨3, 0⟩,
        .table (.clear "x"), .group [⟨4, 0⟩]]
    forest.Reachable ∧ forest.table.value? "x" = none ∧
      (forest.value ⟨4, 0⟩).1 = .ok (.int 3) ∧
      (forest.tryValue ⟨4, 0⟩).1 = .ok (some (.int 3)) ∧
      (forest.tryValue ⟨4, 0⟩).2 = (forest.value ⟨4, 0⟩).2 ∧
      (forest.tryValue ⟨4, 0⟩).2.table.value? "x" = some (.int 3) ∧
      forest.hasValue ⟨5, 0⟩ = true ∧
      (forest.tryValue ⟨5, 0⟩).1 = .error .groupHasNoValue := by
  intro forest
  have reachable : forest.Reachable := ⟨_, _, rfl⟩
  have evaluated : forest.table.value? "x" = none ∧ (forest.value ⟨4, 0⟩).1 = .ok (.int 3) ∧
      (forest.value ⟨4, 0⟩).2.table.value? "x" = some (.int 3) ∧
      forest.node? ⟨5, 0⟩ = some (.group [⟨4, 0⟩]) ∧ forest.hasValue ⟨5, 0⟩ = true := by
    decide +kernel
  obtain ⟨cleared, done, stored, located, valued⟩ := evaluated
  obtain ⟨asked, -, -, left⟩ := tryValue_agrees reachable ⟨4, 0⟩
  have answered := (asked (.int 3)).mpr done
  have same := left _ _ done answered
  obtain ⟨-, -, present, -⟩ := tryValue_agrees reachable ⟨5, 0⟩
  obtain ⟨-, -, grouped⟩ := present valued
  exact ⟨reachable, cleared, done, answered, same, same ▸ stored, valued,
    (grouped _ located).2⟩

end Forest

end Worksheet
