import Gatehouse.Proofs.Service.Progress

/-!
# Assignments of deleted groups

Whoever assigns a policy to a group has to name one that is not deleted.  The deletion of a policy drops
the policy's assignments; the deletion of a group does not look at them.  So an assignment can outlive
its group, and there is no other way to come to one: an assignment of a deleted group was stored, as it
is, when the group was deleted (`Step.orphans`).
-/

namespace Gatehouse

open Service Store

namespace Service

/-- A call that deletes the group of an assignment that is stored. -/
def Step.orphans (x : Step) (a : PolicyAssignment) : Prop :=
  x.operation = .deletePolicyGroup a.policyGroup ∧ (∃ r, x.outcome = .ok r) ∧
    a ∈ x.before.memory.assignments

/-- Every assignment has its group, and the group is deleted only by a call that orphans it. -/
def Holdings.IsGrouped (h : Holdings) (steps : List Step) : Prop :=
  ∀ a ∈ h.assignments, ∃ g, h.group? a.policyGroup = some g ∧
    (g.deleted = true → ∃ x ∈ steps, x.orphans a)

section Groups

variable {svc : Service} {s t : State} {h h' : Holdings} {steps : List Step} {name : String}

/-- Another group in the place of one is found under its name. -/
theorem Holdings.group?_replaceGroup (h : Holdings) (g : PolicyGroup) (name : String) :
    Holdings.group? { h with groups := h.replaceGroup g } name =
      (h.group? name).map fun x => if x.name = g.name then g else x := by
  have hname : ∀ x : PolicyGroup, (if x.name = g.name then g else x).name = x.name := fun x => by
    split
    · rename_i heq
      exact heq.symm
    · rfl
  rw [Holdings.group?, Holdings.replaceGroup, List.find?_map, Holdings.group?]
  congr 2
  funext x
  rw [Function.comp_apply, hname]

/-- Groups stay grouped while only the assignments become fewer. -/
theorem Holdings.IsGrouped.mono (hh : h.IsGrouped steps) (hgroups : h'.groups = h.groups)
    (hassignments : h'.assignments ⊆ h.assignments) : h'.IsGrouped steps := by
  intro a ha
  rw [Holdings.group?, hgroups]
  exact hh a (hassignments ha)

/-- Groups stay grouped when one is replaced, if no assignment is left behind by that. -/
theorem Holdings.IsGrouped.replaceGroup (hh : h.IsGrouped steps) {changed : PolicyGroup}
    (hdead : ∀ a ∈ h.assignments, a.policyGroup = changed.name → changed.deleted = true →
      ∃ x ∈ steps, x.orphans a) :
    Holdings.IsGrouped { h with groups := h.replaceGroup changed } steps := by
  intro a ha
  obtain ⟨g, hg, hdeleted⟩ := hh a ha
  have hname : g.name = a.policyGroup := (Holdings.group?_eq_some_imp hg).2
  rw [Holdings.group?_replaceGroup, hg, Option.map_some]
  refine ⟨_, rfl, fun hnow => ?_⟩
  split at hnow
  · rename_i hsame
    exact hdead a ha (hname.symm.trans hsame) hnow
  · exact hdeleted hnow

/-- A new assignment names a group that is not deleted. -/
theorem Holdings.IsGrouped.assign (hh : h.IsGrouped steps) {versionId policyId : String}
    {a : PolicyAssignment} (ha : h.Assignable versionId a.policyGroup policyId)
    (hassignments : ∀ x ∈ h'.assignments, x ∈ h.assignments ∨ x = a) (hgroups : h'.groups = h.groups) :
    h'.IsGrouped steps := by
  intro x hx
  rw [Holdings.group?, hgroups]
  rcases hassignments x hx with hx | rfl
  · exact hh x hx
  · obtain ⟨g, hg, hlive⟩ := ha.group
    exact ⟨g, hg, fun hdeleted => absurd (hlive.symm.trans hdeleted) (by decide)⟩

/-- **Every change keeps assignments grouped.** -/
theorem Change.isGrouped {x : Step} {r : x.operation.Result} (hx : x ∈ steps)
    (hr : x.outcome = .ok r) (hs : x.before.Keeps h)
    (hc : Change svc.refusal x.before x.after h x.operation r h') (hh : h.IsGrouped steps) :
    h'.IsGrouped steps := by
  obtain ⟨caller, operation, outcome, before, after⟩ := x
  cases hc with
  | read | createPolicy | updatePolicy | evaluateResource => exact hh.mono rfl fun _ ha => ha
  | deletePolicy | deleteAssignment => exact hh.mono rfl List.filter_sublist.subset
  | createGroup named fresh shown =>
    intro a ha
    obtain ⟨g, hg, hdeleted⟩ := hh a ha
    refine ⟨g, ?_, hdeleted⟩
    have hfound : h.groups.find? (fun x => x.name = a.policyGroup) = some g := hg
    rw [Holdings.group?, List.find?_append, hfound, Option.some_or]
  | updateGroup found live shown =>
    -- the group with the new description is as live as before
    exact hh.replaceGroup fun _ _ _ hdeleted => absurd (live.symm.trans hdeleted) (by decide)
  | @deleteGroup name marked time found live shown =>
    -- the assignment is there when its group is deleted
    refine hh.replaceGroup fun a ha hgroup _ => ⟨_, hx, ?_, ⟨_, hr⟩, ?_⟩
    · rw [show name = a.policyGroup from (Holdings.group?_eq_some_imp found).2.symm.trans hgroup.symm]
    · rw [hs.assignments_eq]
      exact ha
  | createAssignment assignable fresh shown =>
    exact hh.assign assignable (fun _ hx => (List.mem_append.1 hx).imp_right List.mem_singleton.1) rfl
  | @updateAssignment id versionId policyId a time found assignable same shown =>
    exact hh.assign (a := { a with policyVersionId := versionId, updated := time }) assignable
      (fun _ hx => (Holdings.mem_replaceAssignment hx).symm) rfl

/-- A deletion of a group leaves all assignments. -/
theorem assignments_of_deleteGroup (hs : s.Keeps h) {caller : Access.Caller}
    (he : Ends surroundings (svc.perform caller (.deletePolicyGroup name)) s (.ok ()) t) :
    t.memory.assignments = s.memory.assignments ∧
      ∃ g, t.memory.group? name = some g ∧ g.deleted = true := by
  obtain ⟨h', ht, hchange⟩ := perform_ends hs he
  rw [ht.assignments_eq, ht.group?_eq, hs.assignments_eq]
  cases hchange with
  | read reads => contradiction
  | @deleteGroup _ g time found live shown =>
    refine ⟨rfl, { g with deleted := true, updated := time }, ?_, rfl⟩
    rw [Holdings.group?_replaceGroup, found, Option.map_some, if_pos rfl]

end Groups
end Service

namespace PolicyGroup

/-- **An assignment outlives its group where the group was deleted, and nowhere else.**  In every state
that is reached from nothing the group of an assignment is stored.  If it is deleted, then by a call
before which the assignment was stored as it is.  And every deletion of a group leaves all assignments. -/
theorem assignments_outlive {svc : Service} {steps : List Step} {s : State}
    (hrun : Run svc .initial steps s) :
    (∀ a ∈ s.memory.assignments, ∃ g, s.memory.group? a.policyGroup = some g ∧
      (g.deleted = true → ∃ x ∈ steps, x.orphans a)) ∧
    ∀ {caller : Access.Caller} {name : String} {t : State},
      Ends surroundings (svc.perform caller (.deletePolicyGroup name)) s (.ok ()) t →
      t.memory.assignments = s.memory.assignments ∧
        ∃ g, t.memory.group? name = some g ∧ g.deleted = true := by
  have hempty : Holdings.empty.IsGrouped steps := fun _ ha => absurd ha List.not_mem_nil
  obtain ⟨h, hs, hh⟩ := hrun.keeps_of State.keeps_initial hempty
    fun x hx _ _ _ hr hs hc hh => hc.isGrouped hx hr hs hh
  refine ⟨fun a ha => ?_, assignments_of_deleteGroup hs⟩
  rw [hs.assignments_eq] at ha
  obtain ⟨g, hg, hdeleted⟩ := hh a ha
  exact ⟨g, (hs.group?_eq _).trans hg, hdeleted⟩

end PolicyGroup

/-! ## A group that is deleted -/

/-- The group of a first assignment can be deleted. -/
theorem Service.First.exists_groupDeleted : ∃ (steps : List Step) (s t : State),
    Run lenient .initial steps s ∧ s.Keeps First.holdings ∧ Ends surroundings
      (lenient.perform administrator (.deletePolicyGroup First.group.name)) s (.ok ()) t := by
  obtain ⟨steps, s, hrun, hs, -⟩ := First.exists_assigned
  have found : First.holdings.group? First.group.name = some First.group := by decide
  obtain ⟨t, ht⟩ := PolicyGroup.delete_succeeds hs (by decide) found rfl First.time_isKept
  exact ⟨steps, s, t, hrun, hs, ends_administrator (o := .deletePolicyGroup First.group.name) ht⟩

namespace PolicyGroup

theorem assignments_outlive_first : ∃ (steps : List Step) (s t : State), Run lenient .initial steps s ∧
    First.assignment ∈ s.memory.assignments ∧
    (∃ g, s.memory.group? First.assignment.policyGroup = some g) ∧
    t.memory.assignments = s.memory.assignments ∧
    ∃ g, t.memory.group? First.group.name = some g ∧ g.deleted = true := by
  obtain ⟨steps, s, t, hrun, hs, he⟩ := First.exists_groupDeleted
  have hassigned : First.assignment ∈ s.memory.assignments := by
    rw [hs.assignments_eq]
    exact List.mem_singleton_self _
  obtain ⟨hgroups, hdelete⟩ := assignments_outlive hrun
  obtain ⟨g, hg, -⟩ := hgroups _ hassigned
  exact ⟨steps, s, t, hrun, hassigned, ⟨g, hg⟩, hdelete he⟩

/-- So not every assignment has a live group. -/
theorem not_forall_assigned_live : ¬ ∀ (svc : Service) (steps : List Step) (s : State),
    Run svc .initial steps s → ∀ a ∈ s.memory.assignments,
      ∃ g, s.memory.group? a.policyGroup = some g ∧ g.deleted = false := by
  intro hall
  obtain ⟨steps, s, t, hrun, hs, he⟩ := First.exists_groupDeleted
  let x : Step := ⟨administrator, .deletePolicyGroup First.group.name, .ok (), s, t⟩
  have hdelete : Run lenient s [x] t := .cons (x := x) he (.nil t)
  obtain ⟨hassignments, g, hg, hdeleted⟩ := assignments_of_deleteGroup hs he
  have hassigned : First.assignment ∈ t.memory.assignments := by
    rw [hassignments, hs.assignments_eq]
    exact List.mem_singleton_self _
  obtain ⟨g', hg', hlive⟩ := hall lenient _ t (hrun.append hdelete) _ hassigned
  rw [show First.assignment.policyGroup = First.group.name from rfl, hg] at hg'
  obtain rfl := Option.some.inj hg'
  rw [hdeleted] at hlive
  contradiction

end PolicyGroup
end Gatehouse
