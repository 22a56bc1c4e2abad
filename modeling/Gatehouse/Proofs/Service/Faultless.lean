import Gatehouse.Proofs.Evaluation.AuditLog
import Gatehouse.Proofs.Service.Failure
import Gatehouse.Proofs.Service.Faults
import Gatehouse.Proofs.Service.Links

/-!
# The service is never at fault

Some twenty places of the service end with an internal failure of its own.  Each is there for something
that cannot be: a document that does not read back, a write that the store refuses although it was
looked at before, a current version or an assigned version that is not there, fewer answers than
searches.  In a state that is reached from nothing none of them is ever taken.

1. **What has to be known of the holdings** (`Holdings.IsLinked`, `Holdings.HasNext`).  Links are for what
   is looked up by reference.  A policy whose versions are numbered without a gap has the id of its next
   version left, also when the number after the last one is 0 again.
2. **Every action** (`Operation.isFaultless_action`), each by the rules for sequences.
3. **Every call** (`internal_explained`).  An internal failure is one of the occurrence store or of the
   rule engine, and it was answered in this call.
-/

namespace Gatehouse

open Service Store

namespace Service

/-! ## What is known of the holdings -/

/-- No policy has a version of the number after its current one. -/
def Holdings.HasNext (h : Holdings) : Prop :=
  ∀ p, .policy p ∈ h.policies → h.filed? (Policy.versionId p.id (p.currentVersion + 1)) = none

section Known

variable {s : State} {h h' : Holdings} {id : String}

/-- **The next number is free.**  The versions are numbered from 1 to the current one; the next number is
one more, or 0. -/
theorem Holdings.IsNumbered.hasNext (hs : s.Keeps h) {updates : String → Nat}
    (hh : h.IsNumbered updates) : h.HasNext := by
  intro p hp
  by_contra hne
  obtain ⟨e, he⟩ := Option.ne_none_iff_exists'.1 hne
  obtain ⟨hmem, hid⟩ := (hs.holds.filed?_eq_some ..).1 he
  cases e with
  | policy q =>
    -- an id of a policy has no point
    have huuid := hs.honest.uuid _ (hs.sound.policyId q hmem)
    have hqid : q.id = Policy.versionId p.id (p.currentVersion + 1) := hid
    exact huuid.point_notMem (hqid ▸ Policy.point_mem_versionId _ _)
  | version v =>
    have hvid : Policy.versionId v.policyId v.version = Policy.versionId p.id (p.currentVersion + 1) :=
      (hs.sound.versionId v hmem).symm.trans hid
    obtain ⟨hpolicy, hnumber⟩ := Policy.versionId_injective hvid
    have hin : v.version.toNat ∈ (h.versionsOf p.id).map fun v => v.version.toNat :=
      List.mem_map_of_mem (mem_versionsOf.2 ⟨hmem, hpolicy⟩)
    rw [(hh p hp).1, List.mem_range'_1, hnumber, UInt32.toNat_add, UInt32.toNat_one] at hin
    have hlt := p.currentVersion.toNat_lt
    omega

/-- What is free is seen in the store, so it does not matter by which holdings it is described. -/
theorem Holdings.HasNext.of_keeps (hs : s.Keeps h) (hs' : s.Keeps h') (hh : h.HasNext) : h'.HasNext := by
  intro p hp
  have hpolicy' : h'.policy? p.id = some p := hs'.holds.policy?_eq_some.2 ⟨hp, rfl⟩
  have hpolicy : h.policy? p.id = some p := by rw [← hs.policy?_eq, hs'.policy?_eq, hpolicy']
  have hfree := hh p (hs.holds.policy?_eq_some.1 hpolicy).1
  have hsame := (hs.get?_policies (Policy.versionId p.id (p.currentVersion + 1))).symm.trans
    (hs'.get?_policies _)
  rw [hfree, Option.map_none] at hsame
  exact Option.map_eq_none_iff.1 hsame.symm

/-- The current version of a policy is found. -/
theorem Holdings.IsLinked.exists_current {m : Memory} (hm : Holds m h) (hl : h.IsLinked) {p : Policy}
    (hp : h.policy? id = some p) : ∃ v, h.version? (Policy.versionId id p.currentVersion) = some v := by
  obtain ⟨hmem, rfl⟩ := hm.policy?_eq_some.1 hp
  obtain ⟨v, hv, hvid⟩ := hl.current p hmem
  exact ⟨v, hm.version?_eq_some.2 ⟨hv, hvid⟩⟩

/-- The version of an assignment is found. -/
theorem Holdings.IsLinked.exists_assigned {m : Memory} (hm : Holds m h) (hl : h.IsLinked)
    {a : PolicyAssignment} (ha : a ∈ h.assignments) : ∃ v, h.version? a.policyVersionId = some v := by
  obtain ⟨p, v, hb⟩ := hl.assigned a ha
  exact ⟨v, hm.version?_eq_some.2 ⟨hb.version, hb.named⟩⟩

/-! ### What listings select reads back -/

theorem State.Keeps.reads_hasRelation_policy (hs : s.Keeps h) {d : Document}
    (hd : d ∈ h.documents .policies) (hrelation : (Query.hasRelation Policy.relation).selects d = true) :
    ∃ p, Policy.ofJson? d.source = some p := by
  obtain ⟨e, he, rfl⟩ := List.mem_map.1 hd
  cases e with
  | policy p => exact ⟨p, hs.read_policy he⟩
  | version v =>
    have hsame : Policy.versionRelation = Policy.relation :=
      Option.some.inj (Query.selects_hasRelation.1 hrelation)
    exact absurd hsame (by decide)

theorem State.Keeps.reads_childrenOf_policy (hs : s.Keeps h) {d : Document}
    (hd : d ∈ h.documents .policies) (hparent : (Query.childrenOf id).selects d = true) :
    ∃ v, PolicyVersion.ofJson? d.source = some v := by
  obtain ⟨e, he, rfl⟩ := List.mem_map.1 hd
  cases e with
  | policy p => contradiction
  | version v => exact ⟨v, hs.read_version he⟩

theorem State.Keeps.reads_hasRelation_record (hs : s.Keeps h) {d : Document}
    (hd : d ∈ h.documents .evaluations)
    (hrelation : (Query.hasRelation EvaluationRecord.relation).selects d = true) :
    ∃ e, ResourceEvaluation.ofJson? d.source = some e := by
  obtain ⟨r, hr, hd⟩ := List.mem_flatMap.1 hd
  rcases List.mem_cons.1 hd with rfl | hd
  · exact ⟨_, EvaluationRecord.read_parent hs hr⟩
  · obtain ⟨c, -, rfl⟩ := List.mem_map.1 hd
    have hsame : EvaluationRecord.childRelation = EvaluationRecord.relation :=
      Option.some.inj (Query.selects_hasRelation.1 hrelation)
    exact absurd hsame (by decide)

theorem State.Keeps.reads_childrenOf_record (hs : s.Keeps h) {d : Document}
    (hd : d ∈ h.documents .evaluations) (hparent : (Query.childrenOf id).selects d = true) :
    ∃ c, PolicyEvaluation.ofJson? d.source = some c := by
  obtain ⟨r, hr, hd⟩ := List.mem_flatMap.1 hd
  rcases List.mem_cons.1 hd with rfl | hd
  · contradiction
  · obtain ⟨c, hc, rfl⟩ := List.mem_map.1 hd
    exact ⟨c, EvaluationRecord.read_child hs hr hc⟩

end Known
end Service

/-! ## Policies -/

section Policies

variable {refusal : Rego.Refusal} {s : State} {h : Holdings}

/-- What was found is what the scope covers, in some order. -/
theorem AssignmentScope.isFaultless_assignments_bind {α : Type} (hs : s.Keeps h) {scope : AssignmentScope}
    {f : List PolicyAssignment → Action α}
    (hf : ∀ {as m}, m.Keeps h → as.Perm (h.assignments.filter scope.covers) → IsFaultless (f as) m) :
    IsFaultless (scope.assignments >>= f) s := by
  have hsearch : IsFaultless scope.assignments s := isFaultless_of_ok fun r t he => by
    obtain ⟨as, hr, -⟩ := ends_assignments hs he
    exact ⟨as, hr⟩
  refine hsearch.and_then hs (reads_assignments scope) fun hm he => ?_
  obtain ⟨as, has, hperm, -, -⟩ := ends_assignments hs he
  obtain rfl := Except.ok.inj has
  exact hf hm hperm

namespace Policy

section LookingUp

variable {α : Type} {id : String}

theorem isFaultless_findVersion?_bind (hs : s.Keeps h) {f : Option PolicyVersion → Action α}
    (hf : ∀ {m}, m.Keeps h → IsFaultless (f (h.version? id)) m) :
    IsFaultless (findVersion? id >>= f) s := by
  have hfind : IsFaultless (findVersion? id) s :=
    isFaultless_of_ok fun _ _ he => ⟨_, ((ends_findVersion? hs).1 he).1⟩
  refine hfind.and_then hs (reads_findVersion? id) fun hm he => ?_
  obtain rfl := Except.ok.inj ((ends_findVersion? hs).1 he).1
  exact hf hm

theorem isFaultless_require_bind (hs : s.Keeps h) {f : Policy → Action α}
    (hf : ∀ {p m}, m.Keeps h → h.policy? id = some p → IsFaultless (f p) m) :
    IsFaultless (require id >>= f) s := by
  have hfind : IsFaultless (find? id) s :=
    isFaultless_of_ok fun _ _ he => ⟨_, ((ends_find? hs).1 he).1⟩
  have hrequire : IsFaultless (require id) s := hfind.bind fun {found _} _ => by
    cases found with
    | some p => exact isFaultless_pure p
    | none => exact isFaultless_throw rfl
  exact hrequire.and_then hs (reads_require id) fun hm he => hf hm ((ends_require_ok hs).1 he).1

end LookingUp

/-- The version that is lacking could only be the current one, and this one is there. -/
theorem isFaultless_getWithVersion (hs : s.Keeps h) (hl : h.IsLinked) (id : String) :
    IsFaultless (getWithVersion id) s := by
  refine isFaultless_ensure_bind rfl ?_
  refine isFaultless_require_bind hs fun {p _} hs hp => ?_
  refine isFaultless_findVersion?_bind hs fun _ => ?_
  cases hparts : ofVersionId? id with
  | some parts =>
    split
    · exact isFaultless_pure _
    · exact isFaultless_throw rfl
  | none =>
    rw [hparts] at hp
    obtain ⟨v, hv⟩ := hl.exists_current hs.holds hp
    have hcurrent : h.version? (versionId id p.currentVersion) = some v := hv
    simp only [Option.map_none, Option.getD_none, hcurrent]
    exact isFaultless_pure _

theorem isFaultless_get (hs : s.Keeps h) (hl : h.IsLinked) (id : String) : IsFaultless (get id) s :=
  (isFaultless_getWithVersion hs hl id).bind fun _ => isFaultless_pure _

theorem isFaultless_list (hs : s.Keeps h) (o : ListOptions) : IsFaultless (list o) s :=
  Service.isFaultless_list hs fun _ hd hselects =>
    hs.reads_hasRelation_policy hd (hselects _ List.mem_cons_self)

theorem isFaultless_listVersions (hs : s.Keeps h) (id : String) (o : ListOptions) :
    IsFaultless (listVersions id o) s :=
  isFaultless_require_bind hs fun hs _ => Service.isFaultless_list hs fun _ hd hselects =>
    hs.reads_childrenOf_policy hd (hselects _ List.mem_cons_self)

theorem isFaultless_validate (source : String) : IsFaultless (validate refusal source) s :=
  isFaultless_ensure_bind rfl (isFaultless_pure _)

theorem isFaultless_create (hs : s.Keeps h) (draft : Draft) : IsFaultless (create refusal draft) s := by
  refine isFaultless_ensure_bind rfl <| isFaultless_ensure_bind rfl <| isFaultless_ensure_bind rfl ?_
  refine isFaultless_freshId_bind fun id hid => isFaultless_now_bind fun time => ?_
  exact isFaultless_call_bind (perform_create hs hid draft time).1 (isFaultless_pure _)

theorem isFaultless_nextVersion? (p : Policy) (current : PolicyVersion) (revision : Revision) :
    IsFaultless (nextVersion? refusal p current revision) s := by
  unfold nextVersion?
  split
  · exact isFaultless_pure _
  · split
    · exact isFaultless_pure _
    · exact isFaultless_ensure_bind rfl (isFaultless_now_bind fun _ => isFaultless_pure _)

theorem isFaultless_update (hs : s.Keeps h) (hl : h.IsLinked) (hnext : h.HasNext) (id : String)
    (revision : Revision) : IsFaultless (update refusal id revision) s := by
  refine isFaultless_require_bind hs fun {p _} hs hp => ?_
  refine isFaultless_ensure_bind rfl ?_
  refine isFaultless_findVersion?_bind hs fun hs => ?_
  obtain ⟨v, hcurrent⟩ := hl.exists_current hs.holds hp
  rw [hcurrent]
  dsimp only
  rw [pure_bind]
  refine isFaultless_ensure_bind rfl ?_
  refine (isFaultless_nextVersion? ..).and_then hs (reads_nextVersion? ..) fun {next? _} hs hmade => ?_
  refine isFaultless_now_bind fun time => ?_
  -- the next version has the number after the current one, and its id is free
  have hmem := (hs.holds.policy?_eq_some.1 hp).1
  have hfree : ∀ next, next? = some next → h.filed? next.id = none := by
    rintro next rfl
    obtain ⟨_, _, -, -, rfl⟩ := (nextVersion?_ok hmade).1.exists_source
    show h.filed? (versionId p.id (v.version + 1)) = none
    rw [(version_of_found hs hcurrent).2]
    exact hnext p hmem
  have hbulk := hs.holds.perform_bulk
    { h with
      policies :=
        h.replacePolicy (p.revised revision next? time) ++ next?.toList.map PolicyEntry.version }
    (changeAll?_revise next? hmem rfl hfree)
    (Holdings.documents_frame (.inl rfl) (.inr rfl) (.inr rfl) (.inr rfl))
  exact isFaultless_call_bind hbulk.1 (isFaultless_pure _)

theorem isFaultless_mark (hs : Holds s.memory h) {p : Policy} (hp : .policy p ∈ h.policies) :
    IsFaultless (mark p) s :=
  isFaultless_of_ok fun _ _ he => by
    obtain ⟨_, _, hr, _⟩ := ends_mark hs hp he
    exact ⟨(), hr⟩

theorem isFaultless_delete (hs : s.Keeps h) (id : String) : IsFaultless (delete id) s := by
  refine isFaultless_require_bind hs fun {p _} hs hp => ?_
  have hmem := (hs.holds.policy?_eq_some.1 hp).1
  refine isFaultless_ensure_bind rfl ?_
  refine AssignmentScope.isFaultless_assignments_bind hs fun {as m} hs hperm => ?_
  cases as with
  | nil => exact isFaultless_mark hs.holds hmem
  | cons a as =>
    have hbulk := perform_drop hs hperm
    let drop : Call := .bulk Shelf.policyAssignments.index ((a :: as).map fun a => Write.delete a.id)
    have hdropped : Holds (m.after (.store drop) (.ok ())).memory _ := hbulk.2
    exact isFaultless_call_bind hbulk.1 (isFaultless_mark hdropped hmem)

end Policy
end Policies

/-! ## Groups -/

section Groups

variable {s : State} {h : Holdings}

namespace PolicyGroup

theorem isFaultless_get (hs : s.Keeps h) (name : String) : IsFaultless (get name) s := by
  refine isFaultless_ensure_bind rfl ?_
  refine isFaultless_call_bind rfl ?_
  rw [hs.get?_groups]
  cases hg : h.group? name with
  | none => exact isFaultless_throw rfl
  | some g => exact isFaultless_decoded ⟨g, hs.read_group (Holdings.group?_eq_some_imp hg).1⟩

theorem isFaultless_getActive_bind {α : Type} {name : String} (hs : s.Keeps h) {f : PolicyGroup → Action α}
    (hf : ∀ {g m}, m.Keeps h → h.group? name = some g → IsFaultless (f g) m) :
    IsFaultless (getActive name >>= f) s := by
  have hactive : IsFaultless (getActive name) s := (isFaultless_get hs name).bind fun _ =>
    isFaultless_ensure_bind rfl (isFaultless_pure _)
  refine hactive.and_then hs (reads_getActive name) fun hm he => ?_
  obtain ⟨-, hg, -⟩ := (ends_getActive_ok hs).1 he
  exact hf hm hg

theorem isFaultless_list (hs : s.Keeps h) (o : ListOptions) : IsFaultless (list o) s :=
  Service.isFaultless_list hs fun _ hd _ => by
    obtain ⟨g, hg, rfl⟩ := List.mem_map.1 hd
    exact ⟨g, hs.read_group hg⟩

theorem isFaultless_create (hs : s.Keeps h) (name description : String) :
    IsFaultless (create name description) s := by
  refine isFaultless_ensure_bind rfl (isFaultless_now_bind fun time => ?_)
  -- the only refusal of a new document is that its name is taken
  exact isFaultless_write hs.holds (fun _ => isFaultless_pure _) fun _ => isFaultless_throw rfl

/-- A group that was found can be written. -/
theorem isFaultless_save {name : String} (hs : Holds s.memory h) {g : PolicyGroup}
    (hg : h.group? name = some g) (changed : PolicyGroup) (hname : changed.name = g.name) :
    IsFaultless (save changed) s := isFaultless_call (perform_update hs hg changed hname).1

theorem isFaultless_update (hs : s.Keeps h) (name description : String) :
    IsFaultless (update name description) s := by
  refine isFaultless_getActive_bind hs fun {g m} hs hg => ?_
  refine isFaultless_now_bind fun time => ?_
  refine IsFaultless.bind ?_ fun _ => isFaultless_pure _
  exact isFaultless_save (s := m.after .now time) hs.holds hg
    { g with description := description, updated := time } rfl

theorem isFaultless_delete (hs : s.Keeps h) (name : String) : IsFaultless (delete name) s := by
  refine isFaultless_getActive_bind hs fun {g m} hs hg => ?_
  refine isFaultless_now_bind fun time => ?_
  exact isFaultless_save (s := m.after .now time) hs.holds hg
    { g with deleted := true, updated := time } rfl

end PolicyGroup
end Groups

/-! ## Assignments -/

section Assignments

variable {s : State} {h : Holdings}

namespace PolicyAssignment

theorem isFaultless_get (hs : s.Keeps h) (id : String) : IsFaultless (get id) s := by
  refine isFaultless_ensure_bind rfl ?_
  refine isFaultless_call_bind rfl ?_
  rw [hs.get?_assignments]
  cases ha : h.assignment? id with
  | none => exact isFaultless_throw rfl
  | some a => exact isFaultless_decoded ⟨a, hs.read_assignment (Holdings.assignment?_eq_some_imp ha).1⟩

theorem isFaultless_list (hs : s.Keeps h) (scope : String) (o : ListOptions) :
    IsFaultless (list scope o) s := by
  have hscope : ∀ e, AssignmentScope.ofText? scope = .error e → e.operation? = none := by
    intro e he
    unfold AssignmentScope.ofText? at he
    split at he
    · rw [← Except.error.inj he]
      rfl
    · split at he
      · rw [← Except.error.inj he]
        rfl
      · contradiction
  refine (isFaultless_liftM hscope).and_then hs (reads_liftM _) fun hs _ => ?_
  refine Service.isFaultless_list hs fun _ hd _ => ?_
  obtain ⟨a, ha, rfl⟩ := List.mem_map.1 hd
  exact ⟨a, hs.read_assignment ha⟩

theorem isFaultless_checkReferences (hs : s.Keeps h) (versionId group : String) :
    IsFaultless (checkReferences versionId group) s := by
  refine isFaultless_ensure_bind rfl ?_
  split
  · exact isFaultless_throw rfl
  · refine Policy.isFaultless_findVersion?_bind hs fun hs => ?_
    refine isFaultless_ensure_bind rfl ?_
    refine Policy.isFaultless_require_bind hs fun hs _ => ?_
    refine isFaultless_ensure_bind rfl ?_
    exact PolicyGroup.isFaultless_getActive_bind hs fun _ _ => isFaultless_pure _

theorem isFaultless_create (hs : s.Keeps h) (versionId group : String) :
    IsFaultless (create versionId group) s := by
  refine (isFaultless_checkReferences hs _ _).and_then hs (reads_checkReferences _ _) fun hs _ => ?_
  refine isFaultless_now_bind fun time => ?_
  exact isFaultless_write hs.holds (fun _ => isFaultless_pure _) fun _ => isFaultless_throw rfl

theorem isFaultless_update (hs : s.Keeps h) (id versionId : String) :
    IsFaultless (update id versionId) s := by
  refine (isFaultless_get hs id).and_then hs (reads_get id) fun {a _} hs₁ hget => ?_
  obtain ⟨-, ha, -⟩ := (ends_assignment_ok hs).1 hget
  refine (isFaultless_checkReferences hs₁ _ _).and_then hs₁ (reads_checkReferences _ _) fun hs₂ _ => ?_
  refine isFaultless_ensure_bind rfl (isFaultless_now_bind fun time => ?_)
  have hwrite := perform_update hs₂.holds ha { a with policyVersionId := versionId, updated := time } rfl
  exact isFaultless_call_bind hwrite.1 (isFaultless_pure _)

theorem isFaultless_delete (hs : s.Keeps h) (id : String) : IsFaultless (delete id) s := by
  refine isFaultless_ensure_bind rfl ?_
  exact isFaultless_write hs.holds (fun _ => isFaultless_pure _) fun _ => isFaultless_throw rfl

end PolicyAssignment
end Assignments

/-! ## Evaluations -/

section Evaluations

variable {s : State} {h : Holdings}

theorem Resource.isFaultless_resolveKnown (uri : String) : IsFaultless (resolveKnown uri) s :=
  isFaultless_ensure_bind rfl <| isFaultless_ensure_bind rfl <|
    (isFaultless_listOccurrences _).bind fun _ => (isFaultless_listOccurrences _).bind fun _ =>
    isFaultless_pure _

namespace EvaluationRecord

theorem isFaultless_run (version : PolicyVersion) (input : Json) : IsFaultless (run version input) s :=
  (isFaultless_load _ _).bind fun _ => isFaultless_evaluate _ _

theorem isFaultless_evaluateAssigned (hs : s.Keeps h) (hl : h.IsLinked) (recordId : String)
    (time : Instant) (input : Json) {a : PolicyAssignment} (ha : a ∈ h.assignments) :
    IsFaultless (evaluateAssigned recordId time input a) s := by
  refine Policy.isFaultless_findVersion?_bind hs fun hs => ?_
  obtain ⟨v, hv⟩ := hl.exists_assigned hs.holds ha
  rw [hv]
  exact (isFaultless_run v input).bind fun _ => isFaultless_freshId_bind fun _ _ => isFaultless_pure _

theorem isFaultless_prepare (hs : s.Keeps h) (hl : h.IsLinked) (q : ResourceInquiry) :
    IsFaultless (prepare q) s := by
  refine isFaultless_ensure_bind rfl <| isFaultless_ensure_bind rfl ?_
  refine (Resource.isFaultless_resolveKnown _).and_then hs (Resource.reads_resolveKnown _) fun hs _ => ?_
  refine PolicyGroup.isFaultless_getActive_bind hs fun hs _ => ?_
  refine AssignmentScope.isFaultless_assignments_bind hs fun hs hperm => ?_
  refine isFaultless_ensure_bind rfl ?_
  refine (isFaultless_request .now).and_then hs reads_now fun hs _ => ?_
  refine (isFaultless_request .freshId).and_then hs reads_freshId fun hs _ => ?_
  refine IsFaultless.bind ?_ fun _ => isFaultless_pure _
  refine IsFaultless.mapM hs (reads_evaluateAssigned _ _ _) fun a ha _ hm => ?_
  exact isFaultless_evaluateAssigned hm hl _ _ _ (List.mem_of_mem_filter (hperm.mem_iff.1 ha))

theorem isFaultless_create (hs : s.Keeps h) (hl : h.IsLinked) (q : ResourceInquiry) :
    IsFaultless (create q) s := by
  rw [create_eq]
  refine (isFaultless_prepare hs hl q).bind fun hprepare => ?_
  obtain ⟨x, hx, rfl⟩ := prepare_ok hs hprepare
  have hmemory := ((reads_prepare q).untouched hprepare).memory
  refine IsFaultless.bind ?_ fun _ => isFaultless_pure _
  exact isFaultless_of_ok fun r t he => ⟨(), (save_ends hs hx hmemory he).1⟩

theorem isFaultless_evaluatePolicy (hs : s.Keeps h) (hl : h.IsLinked) (q : PolicyInquiry) :
    IsFaultless (evaluatePolicy q) s := by
  refine isFaultless_ensure_bind rfl <| isFaultless_ensure_bind rfl ?_
  refine (Policy.isFaultless_getWithVersion hs hl _).bind fun _ => ?_
  exact (Resource.isFaultless_resolveKnown _).bind fun _ => (isFaultless_run _ _).bind fun _ =>
    isFaultless_pure _

/-- Children that were searched for read back. -/
theorem isFaultless_children (hs : s.Keeps h) (id : String) :
    IsFaultless (children (h.found .evaluations (.childrenOf id))) s := by
  refine IsFaultless.mapM hs (reads_decoded _ _) fun d hd _ _ => isFaultless_decoded ?_
  obtain ⟨hmem, hselects⟩ := List.mem_filter.1 hd
  exact hs.reads_childrenOf_record hmem hselects

theorem isFaultless_get (hs : s.Keeps h) (id : String) : IsFaultless (get id) s := by
  refine isFaultless_ensure_bind rfl ?_
  -- two searches are answered by two responses
  refine isFaultless_searchAll_bind hs [parentQuery id, .childrenOf id] (fun q => q) fun hs => ?_
  cases hhits : (h.found .evaluations (parentQuery id)).hits with
  | nil =>
    simp only [List.map_cons, List.map_nil, hhits]
    exact isFaultless_throw rfl
  | cons d rest =>
    simp only [List.map_cons, List.map_nil, hhits]
    have hfound : d ∈ (h.found .evaluations (parentQuery id)).hits := hhits ▸ List.mem_cons_self
    obtain ⟨hmem, hselects⟩ := List.mem_filter.1 hfound
    have hall := Query.selects_every [.hasRelation relation, .term ["id"] (.string id)] d
    have hrelation := List.all_eq_true.1 (hall.symm.trans hselects) _ List.mem_cons_self
    refine (isFaultless_decoded (hs.reads_hasRelation_record hmem hrelation)).and_then hs
      (reads_decoded ..) fun hs _ => ?_
    exact (isFaultless_children hs id).bind fun _ => isFaultless_pure _

theorem isFaultless_list (hs : s.Keeps h) (q : HistoryInquiry) : IsFaultless (list q) s := by
  refine isFaultless_ensure_bind rfl ?_
  refine (Service.isFaultless_list hs fun _ hd hselects => hs.reads_hasRelation_record hd
    (hselects _ List.mem_cons_self)).and_then hs (Service.reads_list ..) fun {page _} hs _ => ?_
  dsimp only
  split
  · exact isFaultless_pure _
  · -- there are as many answers as searches, each of them for the children of one parent
    refine isFaultless_searchAll_bind hs page.items (fun p => .childrenOf p.id) fun hs => ?_
    refine (isFaultless_ensure_of (by simp)).and_then hs (reads_ensure _ _) fun hs _ => ?_
    refine IsFaultless.bind ?_ fun _ => isFaultless_pure _
    refine IsFaultless.mapM hs reads_children fun found hfound _ hs => ?_
    obtain ⟨p, -, rfl⟩ := List.mem_map.1 hfound
    exact isFaultless_children hs p.id

end EvaluationRecord
end Evaluations

/-! ## Every call -/

namespace Service

section Calls

variable {refusal : Rego.Refusal} {svc : Service} {s t : State} {h : Holdings} {steps : List Step}

/-- **No action is at fault**, where references hold and next versions find their id free. -/
theorem Operation.isFaultless_action (hs : s.Keeps h) (hl : h.IsLinked) (hnext : h.HasNext)
    (o : Operation) : IsFaultless (o.action refusal) s := by
  cases o with
  | evaluateResource q => exact EvaluationRecord.isFaultless_create hs hl q
  | getResourceEvaluation id => exact EvaluationRecord.isFaultless_get hs id
  | listResourceEvaluations q => exact EvaluationRecord.isFaultless_list hs q
  | evaluatePolicy q => exact EvaluationRecord.isFaultless_evaluatePolicy hs hl q
  | createPolicy draft => exact Policy.isFaultless_create hs draft
  | getPolicy id => exact Policy.isFaultless_get hs hl id
  | listPolicies o => exact Policy.isFaultless_list hs o
  | updatePolicy id revision => exact Policy.isFaultless_update hs hl hnext id revision
  | deletePolicy id => exact Policy.isFaultless_delete hs id
  | listPolicyVersions id o => exact Policy.isFaultless_listVersions hs id o
  | validatePolicy source => exact Policy.isFaultless_validate source
  | createPolicyGroup name description => exact PolicyGroup.isFaultless_create hs name description
  | getPolicyGroup name => exact PolicyGroup.isFaultless_get hs name
  | listPolicyGroups o => exact PolicyGroup.isFaultless_list hs o
  | updatePolicyGroup name description => exact PolicyGroup.isFaultless_update hs name description
  | deletePolicyGroup name => exact PolicyGroup.isFaultless_delete hs name
  | createPolicyAssignment versionId group =>
    exact PolicyAssignment.isFaultless_create hs versionId group
  | getPolicyAssignment id => exact PolicyAssignment.isFaultless_get hs id
  | updatePolicyAssignment id versionId => exact PolicyAssignment.isFaultless_update hs id versionId
  | deletePolicyAssignment id => exact PolicyAssignment.isFaultless_delete hs id
  | listPolicyAssignments scope o => exact PolicyAssignment.isFaultless_list hs scope o

/-- What is reached from nothing is linked, and has the ids of next versions left. -/
theorem Run.linked_and_next (hrun : Run svc .initial steps s)
    (hbound : ∀ id, steps.countP (Step.setsContent id) < UInt32.size - 1) :
    ∃ h, s.Keeps h ∧ h.IsLinked ∧ h.HasNext := by
  obtain ⟨h, hs, hl⟩ := hrun.linked State.keeps_initial Holdings.isLinked_empty
  have hempty : Holdings.empty.IsNumbered fun _ => 0 := fun _ hp => absurd hp List.not_mem_nil
  obtain ⟨h', hs', hnumbered, -⟩ := hrun.numbered State.keeps_initial hempty fun id => by
    rw [Nat.zero_add]
    exact hbound id
  exact ⟨h, hs, hl, (hnumbered.hasNext hs').of_keeps hs' hs⟩

/-- **An internal failure is never the service's own.**  In a state that is reached from nothing, with
fewer content updates of a policy than there are numbers, take any call with any arguments.  If the
occurrence store and the rule engine answer whatever they are asked in it, it does not fail internally.
And if it does, then one of them has failed, and this is the cause that is named: no document that does
not read back, no refused write, no version that is lacking, no wrong number of answers. -/
theorem internal_explained (hrun : Run svc .initial steps s)
    (hbound : ∀ id, steps.countP (Step.setsContent id) < UInt32.size - 1) {caller : Access.Caller}
    {o : Operation} {result : Except ServiceError o.Result}
    (he : Ends surroundings (svc.perform caller o) s result t) :
    ((∀ x ∈ s.since t, failure? x = none) → ∀ e, result = .error e → e.code ≠ .internal) ∧
    ∀ operation cause, result = .error (.internal operation cause) →
      (∃ x ∈ s.since t, failure? x = some cause) ∧
        ((∃ e, cause = .occurrences e) ∨ ∃ e, cause = .engine e) := by
  obtain ⟨h, hs, hl, hnext⟩ := hrun.linked_and_next hbound
  have hexplained : ∀ e, result = .error e → s.Explains t e := by
    rintro e rfl
    rcases ends_perform.1 he with ⟨-, haction⟩ | ⟨-, hdenied, -⟩
    · exact Operation.isFaultless_action hs hl hnext o haction
    · rw [Except.error.inj hdenied]
      exact State.explains_of_operation? rfl
  refine ⟨fun hanswered e hfailed hcode => ?_, fun operation cause hfailed => ?_⟩
  · cases e with
    | internal operation cause =>
      obtain ⟨x, hx, hcause⟩ := hexplained _ hfailed operation cause rfl
      rw [hanswered x hx] at hcause
      contradiction
    | _ => contradiction
  · obtain ⟨x, hx, hcause⟩ := hexplained _ hfailed operation cause rfl
    exact ⟨⟨x, hx, hcause⟩, failure?_eq_some hcause⟩

end Calls

/-- After a first policy was created: a policy that is not there is no internal failure, and an
evaluation during an outage fails for the outage. -/
theorem internal_explained_first : ∃ (x : Step) (s t u : State) (e : ServiceError),
    Run lenient .initial [x] s ∧
    (∀ id, [x].countP (Step.setsContent id) < UInt32.size - 1) ∧
    Ends surroundings (lenient.perform administrator (.getPolicy "")) s (.error e) t ∧
    (∀ y ∈ s.since t, failure? y = none) ∧ e.code ≠ .internal ∧
    Ends surroundings (lenient.perform administrator (.evaluateResource First.inquiry)) s
      (.error (.internal "error listing build occurrences" (.occurrences First.outage))) u ∧
    ∃ y ∈ s.since u, failure? y = some (.occurrences First.outage) := by
  obtain ⟨p, s, hcreated, -⟩ := First.exists_created
  let x : Step := ⟨administrator, .createPolicy First.draft, .ok p, .initial, s⟩
  have hrun : Run lenient .initial [x] s := .cons (x := x) hcreated (.nil s)
  have hbound : ∀ id, [x].countP (Step.setsContent id) < UInt32.size - 1 := fun id =>
    Nat.lt_of_le_of_lt List.countP_le_length (show 1 < UInt32.size - 1 by decide)
  have hget : Ends surroundings (Policy.get "") s (.error (.required "policy id")) s :=
    ends_bind_error.2 (.inl (ends_bind_error.2 (.inl (ends_ensure_error.2 ⟨rfl, rfl, rfl⟩))))
  have hmissing := ends_administrator (o := .getPolicy "") hget
  have hanswered : ∀ y ∈ s.since s, failure? y = none := by simp [State.since]
  obtain ⟨hnever, -⟩ := internal_explained hrun hbound hmissing
  obtain ⟨u, houtage, -⟩ := First.exists_outage s
  obtain ⟨-, hcause⟩ := internal_explained hrun hbound houtage
  exact ⟨x, s, s, u, _, hrun, hbound, hmissing, hanswered, hnever hanswered _ rfl, houtage,
    (hcause _ _ rfl).1⟩

end Service
end Gatehouse
