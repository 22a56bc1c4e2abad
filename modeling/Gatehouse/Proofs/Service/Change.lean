import Gatehouse.Proofs.Assignment.Search

/-!
# What an operation does to the holdings

The operations that write, each as one constructor of a relation: from which holdings to which, with
which result, and what was checked before.  `Change` is all that later modules need to know about the
programs of the service.  A property of whole runs is a property of each constructor.

1. **The pieces**: the policy and the version of a draft, a policy after a revision, entries with one
   of them replaced.
2. **The relation** (`Change`).  The two states are there for what was told in between: the ids that
   were given before and after, and the times that were shown.
3. **Soundness** (`Change.isSound`) is kept by every constructor.
-/

namespace Gatehouse

open Service Store

namespace Policy

/-! ## Drafts and revisions -/

/-- The policy of a draft. -/
def Draft.policy (d : Draft) (id : String) (time : Instant) : Policy :=
  { id := id, name := d.name, description := d.description, currentVersion := 1, deleted := false,
    created := time, updated := time, version? := none }

/-- The first version of a draft. -/
def Draft.version (d : Draft) (id : String) (time : Instant) : PolicyVersion :=
  { id := versionId id 1, policyId := id, version := 1, regoContent := d.regoContent,
    sourcePath := d.sourcePath, message := d.message, created := time }

/-- The source that a revision asks for, if it is not the current one. -/
def Revision.newSource? (r : Revision) (current : PolicyVersion) : Option String :=
  r.regoContent?.filter fun source => source ≠ current.regoContent

/-- The version that a revision makes of a source. -/
def Revision.version (r : Revision) (policyId : String) (current : PolicyVersion) (source : String)
    (time : Instant) : PolicyVersion :=
  { id := versionId policyId (current.version + 1)
    policyId := policyId
    version := current.version + 1
    regoContent := source
    sourcePath := r.sourcePath?.getD current.sourcePath
    message := r.message?.getD ""
    created := time }

/-- The next version of a policy is the one that a revision asks for, if it asks for one. -/
def Revision.IsNext (r : Revision) (refusal : Rego.Refusal) (t : State) (policyId : String)
    (current : PolicyVersion) (next? : Option PolicyVersion) : Prop :=
  match r.newSource? current with
  | none => next? = none
  | some source => (Rego.validate refusal source).isValid = true ∧
      ∃ time ∈ t.times, next? = some (r.version policyId current source time)

/-- A next version is made of the source that the revision asks for. -/
theorem Revision.IsNext.exists_source {r : Revision} {refusal : Rego.Refusal} {t : State}
    {policyId : String} {current v : PolicyVersion}
    (h : r.IsNext refusal t policyId current (some v)) : ∃ source, ∃ time ∈ t.times,
      r.newSource? current = some source ∧ v = r.version policyId current source time := by
  unfold IsNext at h
  split at h
  · contradiction
  · rename_i source hsource
    obtain ⟨-, time, htime, hv⟩ := h
    exact ⟨source, time, htime, hsource, Option.some.inj hv⟩

theorem Revision.IsNext.mono {r : Revision} {refusal : Rego.Refusal} {s t : State} {policyId : String}
    {current : PolicyVersion} {next? : Option PolicyVersion}
    (h : r.IsNext refusal s policyId current next?) (hlog : s.log <+: t.log) :
    r.IsNext refusal t policyId current next? := by
  unfold IsNext at h ⊢
  split
  · rename_i hsource
    rwa [hsource] at h
  · rename_i source hsource
    rw [hsource] at h
    obtain ⟨hvalid, time, htime, hnext⟩ := h
    exact ⟨hvalid, time, State.times_subset hlog htime, hnext⟩

/-- The policy after a revision. -/
def revised (p : Policy) (r : Revision) (next? : Option PolicyVersion) (time : Instant) : Policy :=
  { p with
    name := r.name?.getD p.name
    description := r.description?.getD p.description
    currentVersion := (next?.map PolicyVersion.version).getD p.currentVersion
    updated := time }

/-- The policy marked as deleted. -/
def tombstone (p : Policy) (time : Instant) : Policy := { p with deleted := true, updated := time }

end Policy

namespace Service

namespace Holdings

/-- The entries with another policy under its id. -/
def replacePolicy (h : Holdings) (p : Policy) : List PolicyEntry :=
  h.policies.map fun e => if e.id = p.id then .policy p else e

/-- The groups with another one under its name. -/
def replaceGroup (h : Holdings) (g : PolicyGroup) : List PolicyGroup :=
  h.groups.map fun x => if x.name = g.name then g else x

/-- The assignments with another one under its id. -/
def replaceAssignment (h : Holdings) (a : PolicyAssignment) : List PolicyAssignment :=
  h.assignments.map fun x => if x.id = a.id then a else x

/-- A version may be assigned to a group: it is held, and its policy and the group are not deleted. -/
structure Assignable (h : Holdings) (versionId group policyId : String) : Prop where
  parsed : (Policy.ofVersionId? versionId).map Prod.fst = some policyId
  version : ∃ v, h.version? versionId = some v
  policy : ∃ p, h.policy? policyId = some p ∧ p.deleted = false
  group : ∃ g, h.group? group = some g ∧ g.deleted = false

end Holdings

/-! ## Changes -/

/-- The operation writes nothing. -/
def Operation.onlyReads : Operation → Bool
  | .createPolicy _ | .updatePolicy .. | .deletePolicy _ | .createPolicyGroup .. | .updatePolicyGroup ..
  | .deletePolicyGroup _ | .createPolicyAssignment .. | .updatePolicyAssignment ..
  | .deletePolicyAssignment _ | .evaluateResource _ => false
  | _ => true

/-- **What an operation that succeeds does.** -/
inductive Change (refusal : Rego.Refusal) (s t : State) (h : Holdings) :
    (o : Operation) → o.Result → Holdings → Prop
  | read {o : Operation} {r : o.Result} (reads : o.onlyReads = true) : Change refusal s t h o r h
  | createPolicy {draft : Policy.Draft} {id : String} {time : Instant}
      (valid : (Rego.validate refusal draft.regoContent).isValid = true)
      (fresh : id ∉ s.given) (given : id ∈ t.given) (shown : time ∈ t.times) :
      Change refusal s t h (.createPolicy draft)
        { draft.policy id time with version? := some (draft.version id time) }
        { h with policies :=
          h.policies ++ [.policy (draft.policy id time), .version (draft.version id time)] }
  | updatePolicy {id : String} {revision : Policy.Revision} {p : Policy} {current : PolicyVersion}
      {next? : Option PolicyVersion} {time : Instant}
      (found : h.policy? id = some p) (live : p.deleted = false)
      (last : h.version? (Policy.versionId id p.currentVersion) = some current)
      (next : revision.IsNext refusal t id current next?) (shown : time ∈ t.times) :
      Change refusal s t h (.updatePolicy id revision)
        { p.revised revision next? time with version? := some (next?.getD current) }
        { h with policies :=
          h.replacePolicy (p.revised revision next? time) ++ next?.toList.map PolicyEntry.version }
  | deletePolicy {id : String} {p : Policy} {time : Instant}
      (found : h.policy? id = some p) (live : p.deleted = false) (shown : time ∈ t.times) :
      Change refusal s t h (.deletePolicy id) ()
        { h with
          policies := h.replacePolicy (p.tombstone time)
          assignments := h.assignments.filter fun a => !(AssignmentScope.policy id).covers a }
  | createGroup {name description : String} {time : Instant}
      (named : PolicyGroup.isName name = true) (fresh : h.group? name = none)
      (shown : time ∈ t.times) :
      Change refusal s t h (.createPolicyGroup name description)
        (⟨name, description, false, time, time⟩ : PolicyGroup)
        { h with groups := h.groups ++ [⟨name, description, false, time, time⟩] }
  | updateGroup {name description : String} {g : PolicyGroup} {time : Instant}
      (found : h.group? name = some g) (live : g.deleted = false) (shown : time ∈ t.times) :
      Change refusal s t h (.updatePolicyGroup name description)
        { g with description := description, updated := time }
        { h with groups := h.replaceGroup { g with description := description, updated := time } }
  | deleteGroup {name : String} {g : PolicyGroup} {time : Instant}
      (found : h.group? name = some g) (live : g.deleted = false) (shown : time ∈ t.times) :
      Change refusal s t h (.deletePolicyGroup name) ()
        { h with groups := h.replaceGroup { g with deleted := true, updated := time } }
  | createAssignment {versionId group policyId : String} {time : Instant}
      (assignable : h.Assignable versionId group policyId)
      (fresh : h.assignment? (PolicyAssignment.idOf policyId group) = none) (shown : time ∈ t.times) :
      Change refusal s t h (.createPolicyAssignment versionId group)
        (⟨PolicyAssignment.idOf policyId group, versionId, group, time, time⟩ : PolicyAssignment)
        { h with assignments :=
          h.assignments ++ [⟨PolicyAssignment.idOf policyId group, versionId, group, time, time⟩] }
  | updateAssignment {id versionId policyId : String} {a : PolicyAssignment} {time : Instant}
      (found : h.assignment? id = some a) (assignable : h.Assignable versionId a.policyGroup policyId)
      (same : policyId = ((Policy.ofVersionId? a.policyVersionId).map Prod.fst).getD "")
      (shown : time ∈ t.times) :
      Change refusal s t h (.updatePolicyAssignment id versionId)
        { a with policyVersionId := versionId, updated := time }
        { h with assignments :=
          h.replaceAssignment { a with policyVersionId := versionId, updated := time } }
  | deleteAssignment {id : String} {a : PolicyAssignment} (found : h.assignment? id = some a) :
      Change refusal s t h (.deletePolicyAssignment id) ()
        { h with assignments := h.assignments.filter fun x => x.id ≠ id }
  | evaluateResource {q : ResourceInquiry} {r : EvaluationRecord} (sound : RecordIsSound t r) :
      Change refusal s t h (.evaluateResource q) r { h with records := h.records ++ [r] }

/-! ## Soundness is kept -/

section Soundness

variable {refusal : Rego.Refusal} {s t : State} {h h' : Holdings}

theorem Holdings.policy_mem_replacePolicy {p q : Policy} (hq : .policy q ∈ h.replacePolicy p) :
    q = p ∨ .policy q ∈ h.policies ∧ q.id ≠ p.id := by
  obtain ⟨e, he, heq⟩ := List.mem_map.1 hq
  split at heq
  · exact .inl (PolicyEntry.policy.inj heq).symm
  · rename_i hne
    subst heq
    exact .inr ⟨he, hne⟩

theorem Holdings.version_mem_replacePolicy {p : Policy} {v : PolicyVersion}
    (hv : .version v ∈ h.replacePolicy p) : .version v ∈ h.policies := by
  obtain ⟨e, he, heq⟩ := List.mem_map.1 hv
  split at heq
  · contradiction
  · exact heq ▸ he

/-- Under every id of a policy there is still a policy. -/
theorem Holdings.exists_mem_replacePolicy {p q : Policy} (hq : .policy q ∈ h.policies) :
    ∃ r, .policy r ∈ h.replacePolicy p ∧ r.id = q.id := by
  by_cases hid : q.id = p.id
  · -- it is the one that gives way
    refine ⟨p, List.mem_map.2 ⟨_, hq, ?_⟩, hid.symm⟩
    exact if_pos hid
  · refine ⟨q, List.mem_map.2 ⟨_, hq, ?_⟩, rfl⟩
    exact if_neg hid

theorem Holdings.mem_replaceGroup {g x : PolicyGroup} (hx : x ∈ h.replaceGroup g) :
    x = g ∨ x ∈ h.groups := by
  obtain ⟨y, hy, heq⟩ := List.mem_map.1 hx
  split at heq
  · exact .inl heq.symm
  · exact .inr (heq ▸ hy)

theorem Holdings.mem_replaceAssignment {a x : PolicyAssignment} (hx : x ∈ h.replaceAssignment a) :
    x = a ∨ x ∈ h.assignments := by
  obtain ⟨y, hy, heq⟩ := List.mem_map.1 hx
  split at heq
  · exact .inl heq.symm
  · exact .inr (heq ▸ hy)

/-- Putting a policy in the place of one with the same id keeps holdings sound. -/
theorem Holdings.IsSound.replacePolicy (hh : h.IsSound t) {p q : Policy} (hp : .policy p ∈ h.policies)
    (hid : q.id = p.id) (hbare : q.version? = none) (hcreated : q.created ∈ t.times)
    (hupdated : q.updated ∈ t.times) : Holdings.IsSound { h with policies := h.replacePolicy q } t where
  bare r hr := by
    rcases Holdings.policy_mem_replacePolicy hr with rfl | ⟨hr, -⟩
    · exact hbare
    · exact hh.bare r hr
  policyId r hr := by
    rcases Holdings.policy_mem_replacePolicy hr with rfl | ⟨hr, -⟩
    · exact hid ▸ hh.policyId p hp
    · exact hh.policyId r hr
  policyTimes r hr := by
    rcases Holdings.policy_mem_replacePolicy hr with rfl | ⟨hr, -⟩
    · exact ⟨hcreated, hupdated⟩
    · exact hh.policyTimes r hr
  versionId v hv := hh.versionId v (Holdings.version_mem_replacePolicy hv)
  versionTime v hv := hh.versionTime v (Holdings.version_mem_replacePolicy hv)
  owned v hv := by
    obtain ⟨r, hr, hrid⟩ := hh.owned v (Holdings.version_mem_replacePolicy hv)
    obtain ⟨r', hr', hrid'⟩ := Holdings.exists_mem_replacePolicy (p := q) hr
    exact ⟨r', hr', hrid'.trans hrid⟩
  groupTimes := hh.groupTimes
  assignmentTimes := hh.assignmentTimes
  records := hh.records

/-- Adding a version to a policy that is held keeps holdings sound. -/
theorem Holdings.IsSound.addVersion (hh : h.IsSound t) {v : PolicyVersion}
    (hid : v.id = Policy.versionId v.policyId v.version) (htime : v.created ∈ t.times)
    (howned : ∃ p, .policy p ∈ h.policies ∧ p.id = v.policyId) :
    Holdings.IsSound { h with policies := h.policies ++ [.version v] } t where
  bare p hp := hh.bare p (by simpa using hp)
  policyId p hp := hh.policyId p (by simpa using hp)
  policyTimes p hp := hh.policyTimes p (by simpa using hp)
  versionId w hw := by
    rcases List.mem_append.1 hw with hw | hw
    · exact hh.versionId w hw
    · obtain rfl := PolicyEntry.version.inj (List.mem_singleton.1 hw)
      exact hid
  versionTime w hw := by
    rcases List.mem_append.1 hw with hw | hw
    · exact hh.versionTime w hw
    · obtain rfl := PolicyEntry.version.inj (List.mem_singleton.1 hw)
      exact htime
  owned w hw := by
    rcases List.mem_append.1 hw with hw | hw
    · obtain ⟨p, hp, hpid⟩ := hh.owned w hw
      exact ⟨p, List.mem_append_left _ hp, hpid⟩
    · obtain rfl := PolicyEntry.version.inj (List.mem_singleton.1 hw)
      obtain ⟨p, hp, hpid⟩ := howned
      exact ⟨p, List.mem_append_left _ hp, hpid⟩
  groupTimes := hh.groupTimes
  assignmentTimes := hh.assignmentTimes
  records := hh.records

theorem Holdings.IsSound.addPolicy (hh : h.IsSound t) {p : Policy} (hbare : p.version? = none)
    (hid : p.id ∈ t.given) (htimes : p.created ∈ t.times ∧ p.updated ∈ t.times) :
    Holdings.IsSound { h with policies := h.policies ++ [.policy p] } t where
  bare q hq := by
    rcases List.mem_append.1 hq with hq | hq
    · exact hh.bare q hq
    · obtain rfl := PolicyEntry.policy.inj (List.mem_singleton.1 hq)
      exact hbare
  policyId q hq := by
    rcases List.mem_append.1 hq with hq | hq
    · exact hh.policyId q hq
    · obtain rfl := PolicyEntry.policy.inj (List.mem_singleton.1 hq)
      exact hid
  policyTimes q hq := by
    rcases List.mem_append.1 hq with hq | hq
    · exact hh.policyTimes q hq
    · obtain rfl := PolicyEntry.policy.inj (List.mem_singleton.1 hq)
      exact htimes
  versionId v hv := hh.versionId v (by simpa using hv)
  versionTime v hv := hh.versionTime v (by simpa using hv)
  owned v hv := by
    obtain ⟨q, hq, hqid⟩ := hh.owned v (by simpa using hv)
    exact ⟨q, List.mem_append_left _ hq, hqid⟩
  groupTimes := hh.groupTimes
  assignmentTimes := hh.assignmentTimes
  records := hh.records

/-- So does putting a group in the place of the one with the same name, if it keeps the time of that one. -/
theorem Holdings.IsSound.replaceGroup (hh : h.IsSound t) {g f : PolicyGroup} (hg : g ∈ h.groups)
    (hcreated : f.created = g.created) (hupdated : f.updated ∈ t.times) :
    Holdings.IsSound { h with groups := h.replaceGroup f } t :=
  { hh with
    groupTimes := fun x hx => by
      rcases Holdings.mem_replaceGroup hx with rfl | hx
      · exact ⟨hcreated ▸ (hh.groupTimes g hg).1, hupdated⟩
      · exact hh.groupTimes x hx }

/-- **Every change keeps holdings sound.** -/
theorem Change.isSound {o : Operation} {r : o.Result} (hc : Change refusal s t h o r h')
    (hs : s.Keeps h) (hlog : s.log <+: t.log) : h'.IsSound t := by
  -- what was held is sound by the longer log too; each case looks at what is new
  have hh : h.IsSound t := hs.sound.mono hlog
  cases hc with
  | read => exact hh
  | @createPolicy draft id time valid fresh given shown =>
    have hpolicy := hh.addPolicy (p := draft.policy id time) rfl given ⟨shown, shown⟩
    have hversion := hpolicy.addVersion (v := draft.version id time) rfl shown
      ⟨_, List.mem_append_right _ (List.mem_singleton_self _), rfl⟩
    simpa using hversion
  | @updatePolicy id revision p current next? time found live last next shown =>
    obtain ⟨hp, hid⟩ := hs.holds.policy?_eq_some.1 found
    have hpolicy := hh.replacePolicy (q := p.revised revision next? time) hp rfl (hh.bare p hp)
      (hh.policyTimes p hp).1 shown
    cases next? with
    | none => simpa using hpolicy
    | some v =>
      -- the version belongs to the policy, under whose id there is still one
      obtain ⟨_, time', htime, -, rfl⟩ := next.exists_source
      refine hpolicy.addVersion rfl htime ?_
      exact ⟨_, (Holdings.exists_mem_replacePolicy hp).choose_spec.1,
        (Holdings.exists_mem_replacePolicy hp).choose_spec.2.trans hid⟩
  | @deletePolicy id p time found live shown =>
    obtain ⟨hp, hid⟩ := hs.holds.policy?_eq_some.1 found
    have hpolicy := hh.replacePolicy (q := p.tombstone time) hp rfl (hh.bare p hp)
      (hh.policyTimes p hp).1 shown
    exact { hpolicy with
      assignmentTimes := fun a ha => hh.assignmentTimes a (List.mem_of_mem_filter ha) }
  | createGroup named fresh shown =>
    refine { hh with groupTimes := fun g hg => ?_ }
    rcases List.mem_append.1 hg with hg | hg
    · exact hh.groupTimes g hg
    · obtain rfl := List.mem_singleton.1 hg
      exact ⟨shown, shown⟩
  | updateGroup found live shown =>
    exact hh.replaceGroup (Holdings.group?_eq_some_imp found).1 rfl shown
  | deleteGroup found live shown =>
    exact hh.replaceGroup (Holdings.group?_eq_some_imp found).1 rfl shown
  | createAssignment assignable fresh shown =>
    refine { hh with assignmentTimes := fun a ha => ?_ }
    rcases List.mem_append.1 ha with ha | ha
    · exact hh.assignmentTimes a ha
    · obtain rfl := List.mem_singleton.1 ha
      exact ⟨shown, shown⟩
  | updateAssignment found assignable same shown =>
    refine { hh with assignmentTimes := fun a ha => ?_ }
    rcases Holdings.mem_replaceAssignment ha with rfl | ha
    · exact ⟨(hh.assignmentTimes _ (Holdings.assignment?_eq_some_imp found).1).1, shown⟩
    · exact hh.assignmentTimes a ha
  | deleteAssignment found =>
    exact { hh with assignmentTimes := fun a ha => hh.assignmentTimes a (List.mem_of_mem_filter ha) }
  | evaluateResource sound =>
    refine { hh with records := fun r hr => ?_ }
    rcases List.mem_append.1 hr with hr | hr
    · exact hh.records r hr
    · obtain rfl := List.mem_singleton.1 hr
      exact sound

end Soundness
end Service
end Gatehouse
