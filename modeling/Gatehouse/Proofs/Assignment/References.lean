import Gatehouse.Proofs.Service.Links

/-!
# The references of assignments

An assignment refers to a version, and by its id to the owner of this version.  Whatever was created,
updated and deleted before, both are there, and the owner is not deleted.

The deletion of a policy searches the assignments by the start of their ids.  So it matters that ids and
owners go together: the search finds the assignments that the policy owns, all of them and no others.
-/

namespace Gatehouse

open Service Store

namespace PolicyAssignment

section References

variable {svc : Service} {s t : State} {h : Holdings}

/-- Assignments of one policy to one group have one id. -/
theorem owner_group_ne (hs : s.Keeps h) (hh : h.IsLinked) : h.assignments.Pairwise fun a b =>
    ¬ (a.owner? = b.owner? ∧ a.policyGroup = b.policyGroup) := by
  have hids : (h.assignments.map PolicyAssignment.id).Nodup := by
    have hnodup := hs.holds.ordered.nodup_ids Shelf.policyAssignments.index
    rwa [hs.documents_assignments, List.map_map] at hnodup
  refine (List.pairwise_map.1 hids).imp_of_mem fun {a b} ha hb hne hsame => ?_
  obtain ⟨p, v, hpv⟩ := hh.assigned a ha
  obtain ⟨q, w, hqw⟩ := hh.assigned b hb
  have howner : p.id = q.id := by
    have hpq := hsame.1
    rw [hpv.owner? hs, hqw.owner? hs] at hpq
    exact Option.some.inj hpq
  exact hne (by rw [hpv.id, hqw.id, howner, hsame.2])

/-- **What a deletion drops is what the policy owns.** -/
theorem assignments_of_deletePolicy (hs : s.Keeps h) (hh : h.IsLinked) {caller : Access.Caller}
    {id : String} (he : Ends surroundings (svc.perform caller (.deletePolicy id)) s (.ok ()) t) :
    t.memory.documents Shelf.policyAssignments.index =
      (h.assignments.filter fun a => a.owner? ≠ some id).map document := by
  obtain ⟨h', ht, hchange⟩ := perform_ends hs he
  rw [ht.documents_assignments]
  cases hchange with
  | read reads => contradiction
  | @deletePolicy _ p time found live shown =>
    obtain ⟨hp, rfl⟩ := hs.holds.policy?_eq_some.1 found
    refine congrArg _ (List.filter_congr fun a ha => ?_)
    obtain ⟨q, v, hb⟩ := hh.assigned a ha
    have hcovers := hb.covers_policy hs hp
    rw [Bool.eq_iff_iff, Bool.not_eq_true', ← Bool.not_eq_true, hcovers, decide_eq_true_iff]

/-- **The references of assignments hold in every state that is reached from nothing.**  An assignment
has the id of its owner and its group, the version that it names is a version of the owner, and the
owner is not deleted.  No policy is assigned to a group twice.  A deletion of a policy drops all
assignments that it owns and keeps the others, as they are and in their order. -/
theorem references_hold {steps : List Step} (hrun : Run svc .initial steps s) :
    s.memory.documents Shelf.policyAssignments.index = s.memory.assignments.map document ∧
    (∀ a ∈ s.memory.assignments, ∃ (p : Policy) (v : PolicyVersion),
      a.document.id = a.id ∧ a.id = idOf p.id a.policyGroup ∧ a.owner? = some p.id ∧
      s.memory.version? a.policyVersionId = some v ∧ v.policyId = p.id ∧
      s.memory.policy? p.id = some p ∧ p.deleted = false) ∧
    (s.memory.assignments.Pairwise fun a b =>
      ¬ (a.owner? = b.owner? ∧ a.policyGroup = b.policyGroup)) ∧
    ∀ {caller : Access.Caller} {id : String} {t : State},
      Ends surroundings (svc.perform caller (.deletePolicy id)) s (.ok ()) t →
      t.memory.documents Shelf.policyAssignments.index =
        (s.memory.assignments.filter fun a => a.owner? ≠ some id).map document := by
  obtain ⟨h, hs, hh⟩ := hrun.linked State.keeps_initial Holdings.isLinked_empty
  rw [hs.assignments_eq]
  refine ⟨hs.documents_assignments, fun a ha => ?_, owner_group_ne hs hh,
    assignments_of_deletePolicy hs hh⟩
  obtain ⟨p, v, hb⟩ := hh.assigned a ha
  have hversion : s.memory.version? a.policyVersionId = some v :=
    hs.version?_eq.trans (hs.holds.version?_eq_some.2 ⟨hb.version, hb.named⟩)
  have hpolicy : s.memory.policy? p.id = some p :=
    hs.policy?_eq.trans (hs.holds.policy?_eq_some.2 ⟨hb.policy, rfl⟩)
  exact ⟨p, v, rfl, hb.id, hb.owner? hs, hversion, hb.ofPolicy, hpolicy, hb.live⟩

end References

/-- A first policy that is assigned, and then deleted. -/
theorem references_hold_first : ∃ (steps : List Step) (s t : State), Run lenient .initial steps s ∧
    Ends surroundings (lenient.perform administrator (.deletePolicy First.id)) s (.ok ()) t ∧
    s.memory.assignments = [First.assignment] ∧
    First.assignment.id = idOf First.id First.assignment.policyGroup ∧
    t.memory.documents Shelf.policyAssignments.index = [] := by
  obtain ⟨steps, s, hrun, hs, -⟩ := First.exists_assigned
  have found : First.holdings.policy? First.id = some (First.draft.policy First.id First.time) := by
    decide
  obtain ⟨t, ht⟩ := Policy.delete_succeeds hs found rfl First.time_isKept
  have he := ends_administrator (o := .deletePolicy First.id) ht
  have hassigned : s.memory.assignments = [First.assignment] := hs.assignments_eq
  obtain ⟨-, href, -, hdelete⟩ := references_hold hrun
  have hdropped := hdelete he
  have howner : First.assignment.owner? = some First.id := by decide
  obtain ⟨p, v, -, hid, hp, -⟩ := href First.assignment (by simp [hassigned])
  rw [howner, Option.some_inj] at hp
  refine ⟨steps, s, t, hrun, he, hassigned, hp ▸ hid, ?_⟩
  rw [hdropped, hassigned]
  simp [howner]

end PolicyAssignment
end Gatehouse
