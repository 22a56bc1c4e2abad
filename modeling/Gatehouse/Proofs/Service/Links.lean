import Gatehouse.Proofs.Policy.Versions

/-!
# What the things that are held refer to

Policies name their current version, and assignments name a version by its id.  Nothing in the store
enforces such references.  They are checked when a thing is written, and have to be kept when what it
refers to changes.

1. **Ids of assignments** start with the id of a policy between slashes.  An id of a policy has no
   slash, so no such start is a start of an id that was made for another policy, even if the id of the
   one policy begins with that of the other (`idStart_isPrefixOf_idOf`).
2. **Links** (`Holdings.IsLinked`): current versions are held, and every assignment has its id of a live
   policy, one of whose versions it names (`Holdings.Backs`).
3. **Every change keeps the links** (`Change.isLinked`).  The deletion of a policy is the one that could
   leave assignments of a dead policy behind.  It drops those whose id has the policy's start, and these
   are exactly the ones that it owns (`Holdings.Backs.covers_policy`).
-/

namespace Gatehouse

open Service Store

namespace PolicyAssignment

/-- The policy that the id of the assigned version names. -/
def owner? (a : PolicyAssignment) : Option String := (Policy.ofVersionId? a.policyVersionId).map Prod.fst

/-! ## Ids of assignments -/

/-- **An id of an assignment starts with its own policy only.** -/
theorem idStart_isPrefixOf_idOf {p q : String} (hp : '/' ∉ p.toList) (hq : '/' ∉ q.toList)
    (group : String) : (idStart p).toList.isPrefixOf (idOf q group).toList = true ↔ p = q := by
  have hidOf : (idOf q group).toList =
      (idStart q).toList ++ "assignments/policy-groups/".toList ++ group.toList := by simp [idOf]
  have hstart : ∀ x : String, (idStart x).toList = "policies/".toList ++ x.toList ++ ['/'] := fun x => by
    simp [idStart]
  rw [List.isPrefixOf_iff_prefix]
  constructor
  · rintro ⟨rest, hrest⟩
    -- what follows the common start is cut at its first slash, on both sides
    have hcut : p.toList ++ '/' :: rest =
        q.toList ++ '/' :: ("assignments/policy-groups/".toList ++ group.toList) := by
      rw [hidOf, hstart, hstart] at hrest
      simpa only [List.append_assoc, List.append_cancel_left_eq, List.cons_append,
        List.nil_append] using hrest
    have hsame := Text.cut_append rest hp
    rw [hcut, Text.cut_append _ hq, Option.some.injEq, Prod.mk.injEq] at hsame
    exact String.toList_inj.1 hsame.1.symm
  · rintro rfl
    rw [hidOf, List.append_assoc]
    exact List.prefix_append _ _

end PolicyAssignment

namespace Service

/-! ## Links -/

/-- An assignment has the id that a live policy gives it, and names a version of this policy. -/
structure Holdings.Backs (h : Holdings) (a : PolicyAssignment) (p : Policy) (v : PolicyVersion) :
    Prop where
  policy : .policy p ∈ h.policies
  live : p.deleted = false
  version : .version v ∈ h.policies
  ofPolicy : v.policyId = p.id
  named : v.id = a.policyVersionId
  id : a.id = PolicyAssignment.idOf p.id a.policyGroup

/-- What the things that are held refer to is held. -/
structure Holdings.IsLinked (h : Holdings) : Prop where
  current : ∀ p, .policy p ∈ h.policies →
    ∃ v, .version v ∈ h.policies ∧ v.id = Policy.versionId p.id p.currentVersion
  assigned : ∀ a ∈ h.assignments, ∃ p v, h.Backs a p v

theorem Holdings.isLinked_empty : Holdings.empty.IsLinked :=
  ⟨fun _ hp => absurd hp List.not_mem_nil, fun _ ha => absurd ha List.not_mem_nil⟩

section Links

variable {refusal : Rego.Refusal} {s t : State} {h h' : Holdings} {a : PolicyAssignment} {p : Policy}
  {v : PolicyVersion}

/-- The id of a version that is held names its policy and its number. -/
theorem State.Keeps.ofVersionId?_eq (hs : s.Keeps h) (hv : .version v ∈ h.policies) :
    Policy.ofVersionId? v.id = some (v.policyId, v.version) := by
  obtain ⟨q, hq, howner⟩ := hs.sound.owned v hv
  have huuid := hs.honest.uuid _ (hs.sound.policyId q hq)
  rw [hs.sound.versionId v hv, ← howner]
  exact Policy.ofVersionId?_versionId huuid.isEmpty_eq_false v.version

namespace Holdings.Backs

theorem owner? (hs : s.Keeps h) (ha : h.Backs a p v) : a.owner? = some p.id := by
  rw [PolicyAssignment.owner?, ← ha.named, hs.ofVersionId?_eq ha.version, Option.map_some, ha.ofPolicy]

/-- **The scope of a policy covers the assignments of its versions.** -/
theorem covers_policy (hs : s.Keeps h) (ha : h.Backs a p v) {q : Policy} (hq : .policy q ∈ h.policies) :
    (AssignmentScope.policy q.id).covers a = true ↔ a.owner? = some q.id := by
  have hslash : ∀ r, .policy r ∈ h.policies → '/' ∉ r.id.toList := fun r hr =>
    (hs.honest.uuid _ (hs.sound.policyId r hr)).slash_notMem
  rw [AssignmentScope.covers, ha.id, ha.owner? hs, Option.some_inj, eq_comm (a := p.id)]
  exact PolicyAssignment.idStart_isPrefixOf_idOf (hslash q hq) (hslash p ha.policy) a.policyGroup

theorem mono (ha : h.Backs a p v) (hpolicies : h.policies ⊆ h'.policies) : h'.Backs a p v :=
  { ha with policy := hpolicies ha.policy, version := hpolicies ha.version }

/-- A policy that is as live as the one before it backs the same assignments. -/
theorem replacePolicy {m : Memory} (hm : Holds m h) (ha : h.Backs a p v) {q r : Policy}
    (hq : .policy q ∈ h.policies) (hid : r.id = q.id) (hlive : p.id = q.id → r.deleted = false) :
    ∃ p', Holdings.Backs { h with policies := h.replacePolicy r } a p' v := by
  have hv := hm.version_mem_replacePolicy hq hid ha.version
  by_cases hsame : p.id = q.id
  · have hr : .policy r ∈ h.replacePolicy r :=
      List.mem_map.2 ⟨_, ha.policy, if_pos (hsame.trans hid.symm)⟩
    have hpr : r.id = p.id := hid.trans hsame.symm
    exact ⟨r, hr, hlive hsame, hv, ha.ofPolicy.trans hpr.symm, ha.named, hpr ▸ ha.id⟩
  · have hp : .policy p ∈ h.replacePolicy r :=
      List.mem_map.2 ⟨_, ha.policy, if_neg fun heq => hsame (heq.trans hid)⟩
    exact ⟨p, hp, ha.live, hv, ha.ofPolicy, ha.named, ha.id⟩

end Holdings.Backs

/-- What may be assigned backs the assignment that is made of it. -/
theorem Holdings.Assignable.backs (hs : s.Keeps h) {versionId group policyId : String}
    (ha : h.Assignable versionId group policyId) (hversion : a.policyVersionId = versionId)
    (hid : a.id = PolicyAssignment.idOf policyId a.policyGroup) : ∃ p v, h.Backs a p v := by
  obtain ⟨hparsed, ⟨v, hv⟩, ⟨p, hp, hlive⟩, -⟩ := ha
  obtain ⟨hvmem, rfl⟩ := hs.holds.version?_eq_some.1 hv
  obtain ⟨hpmem, rfl⟩ := hs.holds.policy?_eq_some.1 hp
  rw [hs.ofVersionId?_eq hvmem, Option.map_some, Option.some_inj] at hparsed
  exact ⟨p, v, hpmem, hlive, hvmem, hparsed, hversion.symm, hid⟩

/-- A policy whose current version is held may take the place of another one. -/
theorem Holdings.IsLinked.current_replacePolicy {m : Memory} (hm : Holds m h) (hh : h.IsLinked)
    {q r : Policy} (hq : .policy q ∈ h.policies) (hid : r.id = q.id)
    (hcurrent : r.currentVersion = q.currentVersion) :
    ∀ p, .policy p ∈ h.replacePolicy r →
      ∃ v, .version v ∈ h.replacePolicy r ∧ v.id = Policy.versionId p.id p.currentVersion := by
  intro p hp
  rcases Holdings.policy_mem_replacePolicy hp with rfl | ⟨hp, -⟩
  · obtain ⟨v, hv, hvid⟩ := hh.current q hq
    exact ⟨v, hm.version_mem_replacePolicy hq hid hv, by rw [hvid, hid, hcurrent]⟩
  · obtain ⟨v, hv, hvid⟩ := hh.current p hp
    exact ⟨v, hm.version_mem_replacePolicy hq hid hv, hvid⟩

/-- While the policies stay, only new assignments have to be looked at. -/
theorem Holdings.IsLinked.of_policies_eq (hh : h.IsLinked) (hpolicies : h'.policies = h.policies)
    (hassigned : ∀ a ∈ h'.assignments, a ∈ h.assignments ∨ ∃ p v, h.Backs a p v) : h'.IsLinked where
  current := by
    rw [hpolicies]
    exact hh.current
  assigned a ha := by
    obtain ⟨p, v, hb⟩ := (hassigned a ha).elim (hh.assigned a) id
    exact ⟨p, v, hb.mono fun _ he => hpolicies ▸ he⟩

/-! ## Every change -/

/-- A new policy comes with its current version. -/
theorem Holdings.IsLinked.createPolicy (hh : h.IsLinked) (draft : Policy.Draft) (id : String)
    (time : Instant) : Holdings.IsLinked { h with policies :=
      h.policies ++ [.policy (draft.policy id time), .version (draft.version id time)] } where
  current p hp := by
    rcases List.mem_append.1 hp with hp | hp
    · obtain ⟨v, hv, hvid⟩ := hh.current p hp
      exact ⟨v, List.mem_append_left _ hv, hvid⟩
    · obtain rfl : p = draft.policy id time := by simpa using hp
      exact ⟨draft.version id time, by simp, rfl⟩
  assigned a ha := by
    obtain ⟨p, v, hb⟩ := hh.assigned a ha
    exact ⟨p, v, hb.mono (List.subset_append_left _ _)⟩

/-- A revision leaves a policy live, and its current version is the next one or the one before. -/
theorem Holdings.IsLinked.updatePolicy (hs : s.Keeps h) (hh : h.IsLinked) {q : Policy}
    {current : PolicyVersion} {revision : Policy.Revision} {next? : Option PolicyVersion} {time : Instant}
    (hq : .policy q ∈ h.policies) (hlive : q.deleted = false)
    (hnext : revision.IsNext refusal t q.id current next?) : Holdings.IsLinked
      { h with policies :=
        h.replacePolicy (q.revised revision next? time) ++ next?.toList.map PolicyEntry.version } where
  current p hp := by
    have hp : .policy p ∈ h.replacePolicy (q.revised revision next? time) := by simpa using hp
    cases next? with
    | none =>
      obtain ⟨v, hv, hvid⟩ := hh.current_replacePolicy hs.holds hq
        (r := q.revised revision none time) rfl rfl p hp
      exact ⟨v, List.mem_append_left _ hv, hvid⟩
    | some v =>
      rcases Holdings.policy_mem_replacePolicy hp with rfl | ⟨hp, -⟩
      · refine ⟨v, by simp, ?_⟩
        obtain ⟨_, _, -, -, rfl⟩ := hnext.exists_source
        rfl
      · obtain ⟨w, hw, hwid⟩ := hh.current p hp
        have hw' := hs.holds.version_mem_replacePolicy hq (q := q.revised revision (some v) time) rfl hw
        exact ⟨w, List.mem_append_left _ hw', hwid⟩
  assigned a ha := by
    obtain ⟨p, v, hb⟩ := hh.assigned a ha
    obtain ⟨p', hb'⟩ := hb.replacePolicy hs.holds hq (r := q.revised revision next? time) rfl
      fun _ => hlive
    exact ⟨p', v, hb'.mono (List.subset_append_left _ _)⟩

/-- **The assignments that a deletion leaves are those of other policies.** -/
theorem Holdings.IsLinked.deletePolicy (hs : s.Keeps h) (hh : h.IsLinked) {q : Policy} (time : Instant)
    (hq : .policy q ∈ h.policies) : Holdings.IsLinked { h with
      policies := h.replacePolicy (q.tombstone time)
      assignments := h.assignments.filter fun a => !(AssignmentScope.policy q.id).covers a } where
  current := hh.current_replacePolicy hs.holds hq rfl rfl
  assigned a ha := by
    obtain ⟨ha, hcovered⟩ := List.mem_filter.1 ha
    obtain ⟨p, v, hb⟩ := hh.assigned a ha
    have hne : ¬ p.id = q.id := fun heq => by
      have hcovers := (hb.covers_policy hs hq).2 (heq ▸ hb.owner? hs)
      rw [hcovers] at hcovered
      contradiction
    obtain ⟨p', hb'⟩ := hb.replacePolicy hs.holds hq (r := q.tombstone time) rfl
      fun heq => absurd heq hne
    exact ⟨p', v, { hb' with }⟩

/-- **Every change keeps the links.** -/
theorem Change.isLinked {o : Operation} {r : o.Result} (hc : Change refusal s t h o r h')
    (hs : s.Keeps h) (hh : h.IsLinked) : h'.IsLinked := by
  cases hc with
  | read | createGroup | updateGroup | deleteGroup | evaluateResource =>
    exact hh.of_policies_eq rfl fun _ ha => .inl ha
  | createPolicy => exact hh.createPolicy _ _ _
  | updatePolicy found live last next shown =>
    obtain ⟨hq, rfl⟩ := hs.holds.policy?_eq_some.1 found
    exact hh.updatePolicy hs hq live next
  | deletePolicy found live shown =>
    obtain ⟨hq, rfl⟩ := hs.holds.policy?_eq_some.1 found
    exact hh.deletePolicy hs _ hq
  | createAssignment assignable fresh shown =>
    refine hh.of_policies_eq rfl fun a ha => (List.mem_append.1 ha).imp_right fun ha => ?_
    obtain rfl := List.mem_singleton.1 ha
    exact assignable.backs hs rfl rfl
  | @updateAssignment id versionId policyId a time found assignable same shown =>
    refine hh.of_policies_eq rfl fun x hx => (Holdings.mem_replaceAssignment hx).symm.imp_right ?_
    rintro rfl
    -- the policy is the one that the id was made of, since it is still the owner
    obtain ⟨p, v, hb⟩ := hh.assigned a (Holdings.assignment?_eq_some_imp found).1
    have howner : a.owner? = some p.id := hb.owner? hs
    have hsame : policyId = p.id := by
      rw [same, ← PolicyAssignment.owner?, howner, Option.getD_some]
    exact assignable.backs hs rfl (hsame ▸ hb.id)
  | deleteAssignment found =>
    exact hh.of_policies_eq rfl fun _ ha => .inl (List.mem_of_mem_filter ha)

/-- **What is reached from linked holdings keeps linked holdings.** -/
theorem Run.linked {svc : Service} {steps : List Step} (hrun : Run svc s steps t) (hs : s.Keeps h)
    (hh : h.IsLinked) : ∃ h', t.Keeps h' ∧ h'.IsLinked :=
  hrun.keeps_of hs hh fun _ _ _ _ _ _ hs hc hh => hc.isLinked hs hh

end Links
end Service
end Gatehouse
