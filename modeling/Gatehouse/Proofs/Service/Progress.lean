import Gatehouse.Proofs.Rego.Validation
import Gatehouse.Proofs.Service.Run

/-!
# What can be done

So far it was said what follows if a call succeeds.  Here is said when calls do succeed: whenever what
they ask for is acceptable and what they refer to is there, and the rest of the world plays along.  The
replies that it gives are written into the statements: the ids, the times, the answers.

1. **Writing** a policy, a next version, a group and an assignment.
2. **Evaluating** (`EvaluationRecord.create_succeeds`): a group with assignments gets its record as soon
   as the occurrence store and the rule engine answer.
3. **A first evaluation** (`exists_evaluated`): from nothing three calls lead to a group with an
   assignment, and a resource is evaluated against it.
-/

namespace Gatehouse

open Service Store

/-! ## Writing -/

section Writing

variable {refusal : Rego.Refusal} {s : State} {h : Holdings} {id : String} {time : Instant}

/-- A policy with a name and a valid source can be created. -/
theorem Policy.create_succeeds (hs : s.Keeps h) (draft : Draft) (hname : draft.name ≠ "")
    (hsource : draft.regoContent ≠ "") (hvalid : (Rego.validate refusal draft.regoContent).isValid = true)
    (hid : Text.IsUuid id ∧ id ∉ s.given) (htime : time.IsKept) :
    ∃ t, Ends surroundings (create refusal draft) s
        (.ok { draft.policy id time with version? := some (draft.version id time) }) t ∧
      t.Keeps { h with policies :=
        h.policies ++ [.policy (draft.policy id time), .version (draft.version id time)] } ∧
      t.given = s.given ++ [id] ∧ t.times = s.times ++ [time] := by
  have hbulk := perform_create hs hid draft time
  let asked : State := (s.after .freshId id).after .now time
  let call : Call := .bulk Shelf.policies.index
    [.create (draft.policy id time).document, .create (versionDocument (draft.version id time))]
  have hperform : (Memory.perform call asked.memory).1 = .ok () := hbulk.1
  have he : Ends surroundings (create refusal draft) s
      (.ok { draft.policy id time with version? := some (draft.version id time) })
      (asked.after (.store call) (.ok ())) :=
    ends_ensure_bind_ok.2 ⟨by simpa using hname, ends_ensure_bind_ok.2 ⟨by simpa using hsource,
      ends_ensure_bind_ok.2 ⟨hvalid, ends_freshId_bind.2 ⟨id, hid, ends_now_bind.2 ⟨time, htime,
        (ends_call_bind_of_ok hperform).2 (ends_pure.2 ⟨rfl, rfl⟩)⟩⟩⟩⟩⟩
  have hgiven : (asked.after (.store call) (.ok ())).given = s.given ++ [id] := by
    simp [asked]
  have htimes : (asked.after (.store call) (.ok ())).times = s.times ++ [time] := by
    simp [asked]
  have hshown : time ∈ (asked.after (.store call) (.ok ())).times := by simp [htimes]
  have hchange : Change refusal s _ h (.createPolicy draft) _ _ :=
    .createPolicy hvalid hid.2 (by simp [hgiven]) hshown
  exact ⟨_, he, hchange.keeps hs he hbulk.2, hgiven, htimes⟩

/-- A new valid source for a policy becomes its next version, if there is a number left for it. -/
theorem Policy.update_succeeds (hs : s.Keeps h) {p : Policy} {current : PolicyVersion} {source : String}
    (found : h.policy? id = some p) (live : p.deleted = false)
    (last : h.version? (versionId id p.currentVersion) = some current)
    (hnew : source ≠ current.regoContent) (hvalid : (Rego.validate refusal source).isValid = true)
    (hfree : h.filed? (versionId id (p.currentVersion + 1)) = none) (htime : time.IsKept) :
    ∃ r t, let revision : Revision := ⟨none, none, some source, none, none⟩
      let next := revision.version id current source time
      Ends surroundings (update refusal id revision) s (.ok r) t ∧
      t.Keeps { h with
        policies := h.replacePolicy (p.revised revision (some next) time) ++ [.version next] } := by
  let revision : Revision := ⟨none, none, some source, none, none⟩
  let next := revision.version id current source time
  obtain ⟨hp, rfl⟩ := hs.holds.policy?_eq_some.1 found
  have hnumber := (version_of_found hs last).2
  have hrequire := (ends_require_ok (t := s.got .policies p.id) hs).2 ⟨found, rfl⟩
  have hs₁ := (reads_require p.id).keeps hrequire hs
  have hfind := (ends_findVersion? (t := State.got _ .policies (versionId p.id p.currentVersion)) hs₁).2
    ⟨rfl, rfl⟩
  have hs₂ := (reads_findVersion? _).keeps hfind hs₁
  rw [last] at hfind
  let u : State := (s.got .policies p.id).got .policies (versionId p.id p.currentVersion)
  have hnext : Ends surroundings (nextVersion? refusal p current revision) u (.ok (some next))
      (u.after .now time) := by
    unfold nextVersion?
    simp only [revision, hnew, if_false]
    exact ends_ensure_bind_ok.2 ⟨hvalid, ends_now_bind.2 ⟨time, htime, ends_pure.2 ⟨rfl, rfl⟩⟩⟩
  have hs₃ := (reads_nextVersion? ..).keeps hnext hs₂
  have hfree' : h.filed? next.id = none := by
    show h.filed? (versionId p.id (current.version + 1)) = none
    rw [hnumber]
    exact hfree
  have hbulk := hs.holds.perform_bulk
    { h with policies := h.replacePolicy (p.revised revision next time) ++ [.version next] }
    (changeAll?_revise (some next) hp rfl fun v hv => Option.some.inj hv ▸ hfree')
    (Holdings.documents_frame (.inl rfl) (.inr rfl) (.inr rfl) (.inr rfl))
  let asked : State := (u.after .now time).after .now time
  let call : Call := .bulk Shelf.policies.index
    [.update (p.revised revision next time).document, .create (versionDocument next)]
  have hperform : (Memory.perform call asked.memory).1 = .ok () := hbulk.1
  have he : Ends surroundings (update refusal p.id revision) s
      (.ok { p.revised revision next time with version? := some next })
      (asked.after (.store call) (.ok ())) :=
    ends_bind_ok.2 ⟨p, _, hrequire, ends_ensure_bind_ok.2 ⟨by simp [live],
      ends_bind_ok.2 ⟨some current, _, hfind, ends_ensure_bind_ok.2 ⟨rfl,
        ends_bind_ok.2 ⟨some next, _, hnext, ends_now_bind.2 ⟨time, htime,
          (ends_call_bind_of_ok hperform).2 (ends_pure.2 ⟨rfl, rfl⟩)⟩⟩⟩⟩⟩⟩
  obtain ⟨hnext', -⟩ := nextVersion?_ok hnext
  have hlog : asked.log <+: (asked.after (.store call) (.ok ())).log := List.prefix_append _ _
  have hchange : Change refusal s (asked.after (.store call) (.ok ())) h (.updatePolicy p.id revision)
      { p.revised revision next time with version? := some next } _ :=
    .updatePolicy found live last (hnext'.mono ((List.prefix_append _ _).trans hlog))
      (State.times_subset hlog (State.mem_times_now time))
  exact ⟨_, _, he, hchange.keeps hs he hbulk.2⟩

/-- A policy that is not deleted can be deleted. -/
theorem Policy.delete_succeeds (hs : s.Keeps h) {p : Policy} (found : h.policy? id = some p)
    (live : p.deleted = false) (htime : time.IsKept) :
    ∃ t, Ends surroundings (delete id) s (.ok ()) t := by
  have hrequire := (ends_require_ok (t := s.got .policies id) hs).2 ⟨found, rfl⟩
  have hs₁ := (reads_require id).keeps hrequire hs
  obtain ⟨as, m, hsearch, hperm, -⟩ := assignments_succeeds hs₁ (.policy id)
  have hs₂ := (AssignmentScope.reads_assignments _).keeps hsearch hs₁
  have hp := (hs.holds.policy?_eq_some.1 found).1
  have hmark : ∀ {u : State} {g : Holdings}, Holds u.memory g → .policy p ∈ g.policies →
      ∃ t, Ends surroundings (mark p) u (.ok ()) t := by
    intro u g hu hpu
    have hperform : (Memory.perform (.write Shelf.policies.index (.update (p.tombstone time).document))
        (u.after .now time).memory).1 = .ok () := (perform_mark hu hpu time).1
    exact ⟨_, ends_now_bind.2 ⟨time, htime,
      (ends_call_bind_of_ok hperform).2 (ends_pure.2 ⟨rfl, rfl⟩)⟩⟩
  -- what is left of the action after its reads, with or without something to drop
  suffices hrest : ∃ t, Ends surroundings (do
      if !as.isEmpty then
        let _ ← call "error deleting policy assignments"
          (.bulk Shelf.policyAssignments.index (as.map fun a => .delete a.id))
      mark p) m (.ok ()) t by
    obtain ⟨t, he⟩ := hrest
    exact ⟨t, ends_bind_ok.2 ⟨p, _, hrequire, ends_ensure_bind_ok.2 ⟨by simp [live],
      ends_bind_ok.2 ⟨as, m, hsearch, he⟩⟩⟩⟩
  cases as with
  | nil => exact hmark hs₂.holds hp
  | cons a as =>
    have hbulk := perform_drop hs₂ hperm
    let call : Call := .bulk Shelf.policyAssignments.index ((a :: as).map fun a => Write.delete a.id)
    have hdropped : Holds (m.after (.store call) (.ok ())).memory _ := hbulk.2
    obtain ⟨t, he⟩ := hmark hdropped hp
    exact ⟨t, (ends_call_bind_of_ok hbulk.1).2 he⟩

/-- A group can be created under a name that was never used. -/
theorem PolicyGroup.create_succeeds (hs : s.Keeps h) (name description : String)
    (hname : isName name = true) (hfree : h.group? name = none) (htime : time.IsKept) :
    ∃ t, Ends surroundings (create name description) s (.ok ⟨name, description, false, time, time⟩) t ∧
      t.Keeps { h with groups := h.groups ++ [⟨name, description, false, time, time⟩] } ∧
      t.given = s.given ∧ t.times = s.times ++ [time] := by
  let group : PolicyGroup := ⟨name, description, false, time, time⟩
  let call : Call := .write Shelf.policyGroups.index (.create group.document)
  have hfits : (Write.create group.document).Fits (h.documents .policyGroups) := fits_create.2 hfree
  have hwrite := hs.holds.perform_write { h with groups := h.groups ++ [group] } hfits
    (by simp [Write.change, Holdings.documents])
    (Holdings.documents_frame (.inr rfl) (.inl rfl) (.inr rfl) (.inr rfl))
  have hperform : (Memory.perform call (s.after .now time).memory).1 = .ok () := hwrite.1
  have he : Ends surroundings (create name description) s (.ok group)
      ((s.after .now time).after (.store call) (Memory.perform call (s.after .now time).memory).1) := by
    refine ends_ensure_bind_ok.2 ⟨hname, ends_now_bind.2 ⟨time, htime, ends_attempt_bind.2 ?_⟩⟩
    rw [hperform]
    exact ends_pure.2 ⟨rfl, rfl⟩
  rw [hperform] at he
  have htimes : ((s.after .now time).after (.store call) (.ok ())).times = s.times ++ [time] := by
    simp
  have hshown : time ∈ ((s.after .now time).after (.store call) (.ok ())).times := by simp [htimes]
  have hchange : Change (fun _ => none) s _ h (.createPolicyGroup name description) group _ :=
    .createGroup hname hfree hshown
  exact ⟨_, he, hchange.keeps hs he hwrite.2, by simp, htimes⟩

/-- A group that is not deleted can be deleted. -/
theorem PolicyGroup.delete_succeeds (hs : s.Keeps h) {name : String} {g : PolicyGroup}
    (hname : name ≠ "") (found : h.group? name = some g) (live : g.deleted = false)
    (htime : time.IsKept) : ∃ t, Ends surroundings (delete name) s (.ok ()) t := by
  have hactive := (ends_getActive_ok (t := s.got .policyGroups name) hs).2
    ⟨by simpa using hname, found, live, rfl⟩
  have hs₁ := (reads_getActive name).keeps hactive hs
  let marked : PolicyGroup := { g with deleted := true, updated := time }
  let asked : State := (s.got .policyGroups name).after .now time
  have hperform : (Memory.perform (.write Shelf.policyGroups.index (.update marked.document))
      asked.memory).1 = .ok () := (perform_update hs₁.holds found marked rfl).1
  exact ⟨_, ends_bind_ok.2 ⟨g, _, hactive, ends_now_bind.2 ⟨time, htime,
    (ends_call_of_ok hperform).2 ⟨rfl, rfl⟩⟩⟩⟩

/-- What may be assigned passes the check. -/
theorem PolicyAssignment.checkReferences_succeeds (hs : s.Keeps h) {versionId group policyId : String}
    (ha : h.Assignable versionId group policyId) (hgroup : group ≠ "") :
    ∃ t, Ends surroundings (checkReferences versionId group) s (.ok policyId) t ∧
      t.given = s.given ∧ t.times = s.times := by
  obtain ⟨hparsed, ⟨v, hv⟩, ⟨p, hp, hlive⟩, ⟨g, hg, hactive⟩⟩ := ha
  -- an empty text is no id of a version, so the first check is passed as well
  have hversion : versionId ≠ "" := by
    rintro rfl
    have hnone : Policy.ofVersionId? "" = none := by decide +kernel
    rw [hnone] at hparsed
    contradiction
  obtain ⟨⟨parsed, number⟩, hparts, rfl⟩ := Option.map_eq_some_iff.1 hparsed
  have hfind := (ends_findVersion? (t := s.got .policies versionId) hs).2 ⟨rfl, rfl⟩
  have hs₁ := (Policy.reads_findVersion? _).keeps hfind hs
  have hrequire := (ends_require_ok (t := State.got _ .policies parsed) hs₁).2 ⟨hp, rfl⟩
  have hs₂ := (Policy.reads_require _).keeps hrequire hs₁
  have hget := (ends_getActive_ok (t := State.got _ .policyGroups group) hs₂).2
    ⟨by simpa using hgroup, hg, hactive, rfl⟩
  let found : State := (s.got .policies versionId).got .policies parsed
  refine ⟨found.got .policyGroups group, ends_ensure_bind_ok.2 ⟨by simp [hversion, hgroup], ?_⟩, ?_⟩
  · rw [hparts]
    exact ends_bind_ok.2 ⟨_, _, hfind, ends_ensure_bind_ok.2 ⟨by simp [hv],
      ends_bind_ok.2 ⟨p, _, hrequire, ends_ensure_bind_ok.2 ⟨by simp [hlive],
        ends_bind_ok.2 ⟨g, _, hget, ends_pure.2 ⟨rfl, rfl⟩⟩⟩⟩⟩⟩
  · constructor <;> simp [found]

/-- What is not assigned yet can be assigned, once its references were checked. -/
theorem PolicyAssignment.assign_succeeds (hs : s.Keeps h) (versionId : String) {group policyId : String}
    (hfree : h.assignment? (idOf policyId group) = none) (htime : time.IsKept) :
    ∃ t, Ends surroundings (assign versionId group policyId) s
        (.ok ⟨idOf policyId group, versionId, group, time, time⟩) t ∧
      t.Keeps { h with assignments :=
        h.assignments ++ [⟨idOf policyId group, versionId, group, time, time⟩] } ∧
      t.given = s.given ∧ t.times = s.times ++ [time] := by
  let assignment : PolicyAssignment := ⟨idOf policyId group, versionId, group, time, time⟩
  let call : Call := .write Shelf.policyAssignments.index (.create assignment.document)
  let asked : State := s.after .now time
  have hs₁ : asked.Keeps h := hs.after (q := .now) htime rfl
  have hfits : (Write.create assignment.document).Fits (h.documents .policyAssignments) :=
    fits_create.2 hfree
  have hwrite := hs₁.holds.perform_write { h with assignments := h.assignments ++ [assignment] } hfits
    (by simp [Write.change, Holdings.documents])
    (Holdings.documents_frame (.inr rfl) (.inr rfl) (.inl rfl) (.inr rfl))
  have hperform : (Memory.perform call asked.memory).1 = .ok () := hwrite.1
  have he : Ends surroundings (assign versionId group policyId) s (.ok assignment)
      (asked.after (.store call) (Memory.perform call asked.memory).1) := by
    refine ends_now_bind.2 ⟨time, htime, ends_attempt_bind.2 ?_⟩
    rw [hperform]
    exact ends_pure.2 ⟨rfl, rfl⟩
  rw [hperform] at he
  have htimes : (asked.after (.store call) (.ok ())).times = s.times ++ [time] := by
    simp [asked]
  have hsound := hs.sound.mono he.log_isPrefix
  refine ⟨_, he, ⟨he.honest hs.honest, hwrite.2, { hsound with assignmentTimes := fun a ha => ?_ }⟩,
    by simp [asked], htimes⟩
  rcases List.mem_append.1 ha with ha | ha
  · exact hsound.assignmentTimes a ha
  · obtain rfl := List.mem_singleton.1 ha
    have hshown : time ∈ (asked.after (.store call) (.ok ())).times := by simp [htimes]
    exact ⟨hshown, hshown⟩

/-- What may be assigned and is not assigned yet can be assigned. -/
theorem PolicyAssignment.create_succeeds (hs : s.Keeps h) {versionId group policyId : String}
    (ha : h.Assignable versionId group policyId) (hgroup : group ≠ "")
    (hfree : h.assignment? (idOf policyId group) = none) (htime : time.IsKept) :
    ∃ t, Ends surroundings (create versionId group) s
        (.ok ⟨idOf policyId group, versionId, group, time, time⟩) t ∧
      t.Keeps { h with assignments :=
        h.assignments ++ [⟨idOf policyId group, versionId, group, time, time⟩] } ∧
      t.given = s.given ∧ t.times = s.times ++ [time] := by
  obtain ⟨m, hcheck, hgiven, htimes⟩ := checkReferences_succeeds hs ha hgroup
  have hm := (reads_checkReferences _ _).keeps hcheck hs
  obtain ⟨t, he, ht, hgiven', htimes'⟩ := assign_succeeds hm versionId hfree htime
  rw [create_eq]
  exact ⟨t, ends_bind_ok.2 ⟨_, m, hcheck, he⟩, ht, hgiven'.trans hgiven, htimes'.trans (by rw [htimes])⟩

end Writing

/-! ## Evaluating -/

namespace EvaluationRecord

section Evaluating

variable {s : State} {h : Holdings} (recordId : String) (time : Instant) (input : Json)

/-- A resource is resolved as soon as the occurrence store answers. -/
theorem resolveKnown_succeeds {uri : String} (huri : uri ≠ "")
    (hknown : (Resource.ResourceUri.ofText? uri).isSome = true) (builds related : Occurrence.ListResponse)
    (s : State) : Ends surroundings (Resource.resolveKnown uri) s
      (.ok ⟨⟨uri, Resource.publishedNames uri builds.occurrences, none⟩, related.occurrences,
        related.nextPageToken⟩)
      ((s.after (.listOccurrences (Resource.question (Resource.buildsOf uri))) (.ok builds)).after
        (.listOccurrences (Resource.question
          (Resource.onAnyOf (Resource.relatives uri builds.occurrences)))) (.ok related)) :=
  ends_ensure_bind_ok.2 ⟨hknown, ends_ensure_bind_ok.2 ⟨by simpa using huri,
    ends_listOccurrences_bind_ok.2 ⟨builds, ends_listOccurrences_bind_ok.2 ⟨related,
      ends_pure.2 ⟨rfl, rfl⟩⟩⟩⟩⟩

/-- A version is evaluated as soon as the rule engine answers. -/
theorem run_succeeds (v : PolicyVersion) (evaluation : RuleEngine.Evaluation) (s : State) :
    Ends surroundings (run v input) s (.ok evaluation)
      ((s.after (.load v.id v.regoContent) (.ok ())).after (.evaluate v.regoContent input) (.ok evaluation)) :=
  ends_load_bind_ok.2 (Service.ends_evaluate.2 ⟨.ok evaluation, rfl, rfl⟩)

/-- An assignment whose version is there is assessed as soon as the rule engine answers. -/
theorem evaluateAssigned_succeeds (hs : s.Keeps h) {id : String} {a : PolicyAssignment} {v : PolicyVersion}
    (hv : h.version? a.policyVersionId = some v) (hid : Text.IsUuid id ∧ id ∉ s.given) :
    ∃ c t, Ends surroundings (evaluateAssigned recordId time input a) s (.ok c) t ∧
      t.given = s.given ++ [id] := by
  have hfind := (ends_findVersion? (t := s.got .policies a.policyVersionId) hs).2 ⟨rfl, rfl⟩
  rw [hv] at hfind
  let loaded := (s.got .policies a.policyVersionId).after (.load v.id v.regoContent) (.ok ())
  have hrun := run_succeeds input v ⟨.failing, none⟩ (s.got .policies a.policyVersionId)
  have hgiven : (loaded.after (.evaluate v.regoContent input) (.ok ⟨.failing, none⟩)).given =
      s.given := by simp [loaded]
  refine ⟨_, _, ends_bind_ok.2 ⟨some v, _, hfind, ends_bind_ok.2 ⟨_, _, hrun,
    ends_freshId_bind.2 ⟨id, hgiven ▸ hid, ends_pure.2 ⟨rfl, rfl⟩⟩⟩⟩, ?_⟩
  rw [State.given_after_freshId, hgiven]

/-- What is left of fresh ids when the first is given is still fresh. -/
theorem fresh_of_cons {s t : State} {id : String} {ids : List String}
    (hids : ∀ i ∈ id :: ids, Text.IsUuid i ∧ i ∉ s.given) (hnodup : (id :: ids).Nodup)
    (hgiven : t.given = s.given ++ [id]) : ∀ i ∈ ids, Text.IsUuid i ∧ i ∉ t.given := by
  intro i hi
  obtain ⟨huuid, hnew⟩ := hids i (List.mem_cons_of_mem id hi)
  refine ⟨huuid, fun hin => ?_⟩
  rw [hgiven] at hin
  rcases List.mem_append.1 hin with hin | hin
  · exact hnew hin
  · exact (List.nodup_cons.1 hnodup).1 (List.mem_singleton.1 hin ▸ hi)

/-- All assignments are assessed, each with an id of its own. -/
theorem mapM_evaluateAssigned_succeeds (hs : s.Keeps h) {as : List PolicyAssignment} {ids : List String}
    (hv : ∀ a ∈ as, ∃ v, h.version? a.policyVersionId = some v) (hlength : ids.length = as.length)
    (hids : ∀ i ∈ ids, Text.IsUuid i ∧ i ∉ s.given) (hnodup : ids.Nodup) :
    ∃ cs t, Ends surroundings (as.mapM (evaluateAssigned recordId time input)) s (.ok cs) t := by
  induction as generalizing s ids with
  | nil => exact ⟨[], s, ends_pure.2 ⟨rfl, rfl⟩⟩
  | cons a as ih =>
    obtain ⟨i, ids, rfl⟩ := List.exists_cons_of_length_eq_add_one hlength
    obtain ⟨v, hv'⟩ := hv a List.mem_cons_self
    obtain ⟨c, m, hc, hgiven⟩ := evaluateAssigned_succeeds recordId time input hs hv'
      (hids i List.mem_cons_self)
    have hm := (reads_evaluateAssigned ..).keeps hc hs
    obtain ⟨cs, t, hcs⟩ := ih hm (fun b hb => hv b (List.mem_cons_of_mem a hb))
      (Nat.succ.inj hlength) (fresh_of_cons hids hnodup hgiven) (List.nodup_cons.1 hnodup).2
    rw [List.mapM_cons]
    exact ⟨c :: cs, t, ends_bind_ok.2 ⟨c, m, hc, ends_bind_ok.2 ⟨cs, t, hcs, ends_pure.2 ⟨rfl, rfl⟩⟩⟩⟩

/-- A resource can be evaluated against a group: its address is of a known kind, and the group is not
deleted and has assignments, all of versions that are there. -/
structure Evaluable (h : Holdings) (q : ResourceInquiry) : Prop where
  nonempty : q.resourceUri ≠ ""
  known : (Resource.ResourceUri.ofText? q.resourceUri).isSome = true
  named : q.policyGroup ≠ ""
  group : ∃ g, h.group? q.policyGroup = some g ∧ g.deleted = false
  assigned : h.assignments.filter (AssignmentScope.group q.policyGroup).covers ≠ []
  versions : ∀ a ∈ h.assignments, ∃ v, h.version? a.policyVersionId = some v

variable {q : ResourceInquiry} {ids : List String}

/-- Everything that an evaluation does before it writes succeeds. -/
theorem prepare_succeeds (hs : s.Keeps h) (hq : Evaluable h q)
    (hlength : ids.length =
      (h.assignments.filter (AssignmentScope.group q.policyGroup).covers).length + 1)
    (hids : ∀ i ∈ ids, Text.IsUuid i ∧ i ∉ s.given) (hnodup : ids.Nodup) (htime : time.IsKept) :
    ∃ r t, Ends surroundings (prepare q) s (.ok r) t := by
  obtain ⟨hnonempty, hknown, hnamed, ⟨g, hgroup, hlive⟩, hassigned, hversions⟩ := hq
  -- both answers of the occurrence store may be empty
  have hresolve := resolveKnown_succeeds hnonempty hknown ⟨[], ""⟩ ⟨[], ""⟩ s
  have hs₁ := (Resource.reads_resolveKnown _).keeps hresolve hs
  have hactive := (ends_getActive_ok (t := State.got _ .policyGroups q.policyGroup) hs₁).2
    ⟨by simpa using hnamed, hgroup, hlive, rfl⟩
  have hs₂ := (PolicyGroup.reads_getActive _).keeps hactive hs₁
  -- nothing so far was given an id, so all of them are still fresh
  obtain ⟨as, m, hsearch, hperm, hgiven⟩ := assignments_succeeds hs₂ (.group q.policyGroup)
  have hs₃ := (AssignmentScope.reads_assignments _).keeps hsearch hs₂
  have hsame : m.given = s.given := by simp [hgiven]
  rw [← hperm.length_eq] at hlength
  obtain ⟨id, ids, rfl⟩ := List.exists_cons_of_length_eq_add_one hlength
  have hfresh : (m.after .now time).allows .freshId id := by
    obtain ⟨huuid, hnew⟩ := hids id List.mem_cons_self
    exact ⟨huuid, by simpa [hsame] using hnew⟩
  have hs₄ := (hs₃.after (q := .now) htime rfl).after (q := .freshId) hfresh rfl
  have hgiven₄ : ((m.after .now time).after .freshId id).given = s.given ++ [id] := by simp [hsame]
  obtain ⟨cs, t, hloop⟩ := mapM_evaluateAssigned_succeeds id time
    (input ⟨⟨q.resourceUri, Resource.publishedNames q.resourceUri [], none⟩, [], ""⟩) hs₄
    (fun a ha => hversions a (List.mem_of_mem_filter (hperm.mem_iff.1 ha))) (Nat.succ.inj hlength)
    (fresh_of_cons hids hnodup hgiven₄) (List.nodup_cons.1 hnodup).2
  obtain ⟨-, hgname⟩ := Holdings.group?_eq_some_imp hgroup
  have hnone : as ≠ [] := fun hnil => hassigned (List.nil_perm.1 (hnil ▸ hperm))
  let parent : ResourceEvaluation :=
    { id := id, resourceVersion := ⟨q.resourceUri, Resource.publishedNames q.resourceUri [], none⟩
      policyGroup := q.policyGroup, pass := cs.all PolicyEvaluation.pass, source := q.source, created := time }
  refine ⟨⟨parent, cs⟩, t, ends_ensure_bind_ok.2 ⟨by simpa using hnonempty, ends_ensure_bind_ok.2
    ⟨by simpa using hnamed, ends_bind_ok.2 ⟨_, _, hresolve, ends_bind_ok.2 ⟨g, _, hactive, ?_⟩⟩⟩⟩⟩
  rw [hgname]
  exact ends_bind_ok.2 ⟨as, m, hsearch, ends_ensure_bind_ok.2 ⟨by simpa using hnone,
    ends_now_bind.2 ⟨time, htime, ends_freshId_bind.2 ⟨id, hfresh,
      ends_bind_ok.2 ⟨cs, t, hloop, ends_pure.2 ⟨rfl, rfl⟩⟩⟩⟩⟩⟩

/-- **A resource that can be evaluated is evaluated** as soon as the occurrence store and the rule engine
answer. -/
theorem create_succeeds (hs : s.Keeps h) (hq : Evaluable h q)
    (hlength : ids.length =
      (h.assignments.filter (AssignmentScope.group q.policyGroup).covers).length + 1)
    (hids : ∀ i ∈ ids, Text.IsUuid i ∧ i ∉ s.given) (hnodup : ids.Nodup) (htime : time.IsKept) :
    ∃ r t, Ends surroundings (create q) s (.ok r) t := by
  obtain ⟨r, m, hprepare⟩ := prepare_succeeds time hs hq hlength hids hnodup htime
  obtain ⟨x, hx, rfl⟩ := prepare_ok hs hprepare
  have hmemory := ((reads_prepare q).untouched hprepare).memory
  -- however the write ends, it has succeeded
  have hsave : Ends surroundings (save (x.record q)) m _ _ := ends_call.2 ⟨rfl, rfl⟩
  obtain ⟨hok, -⟩ := save_ends hs hx hmemory hsave
  rw [hok] at hsave
  rw [create_eq]
  exact ⟨_, _, ends_bind_ok.2 ⟨_, m, hprepare, ends_bind_ok.2 ⟨(), _, hsave, ends_pure.2 ⟨rfl, rfl⟩⟩⟩⟩

/-- A version that is there is evaluated as soon as the occurrence store and the rule engine answer, and
nothing else is asked of anyone outside. -/
theorem evaluatePolicy_succeeds (hs : s.Keeps h) {q : PolicyInquiry} {p : Policy} {v : PolicyVersion}
    (hid : q.policyId ≠ "") (huri : q.resourceUri ≠ "")
    (hknown : (Resource.ResourceUri.ofText? q.resourceUri).isSome = true)
    (found : h.policy? (Policy.ownerId q.policyId) = some p)
    (version : h.version? (Policy.wantedId q.policyId p) = some v)
    (builds related : Occurrence.ListResponse) (evaluation : RuleEngine.Evaluation) :
    ∃ r t looked, Ends surroundings (evaluatePolicy q) s (.ok r) t ∧ t.Keeps h ∧
      (∀ x ∈ looked, x.request.isOutward = false) ∧ t.log = s.log ++ looked ++
        [⟨.listOccurrences (Resource.question (Resource.buildsOf q.resourceUri)), .ok builds⟩,
         ⟨.listOccurrences (Resource.question
            (Resource.onAnyOf (Resource.relatives q.resourceUri builds.occurrences))), .ok related⟩,
         ⟨.load v.id v.regoContent, .ok ()⟩,
         ⟨.evaluate v.regoContent
            (.object [("occurrences", .array (related.occurrences.map Occurrence.toJson))]),
          .ok evaluation⟩] := by
  have hget := (ends_getWithVersion_ok hs).2 ⟨by simpa using hid, found, version, rfl⟩
  have hresolve := resolveKnown_succeeds huri hknown builds related
    ((s.got .policies (Policy.ownerId q.policyId)).got .policies (Policy.wantedId q.policyId p))
  have he : Ends surroundings (evaluatePolicy q) s (.ok _) _ :=
    ends_ensure_bind_ok.2 ⟨by simpa using hid, ends_ensure_bind_ok.2 ⟨by simpa using huri,
    ends_bind_ok.2 ⟨(p, v), _, hget, ends_bind_ok.2 ⟨_, _, hresolve,
      ends_bind_ok.2 ⟨evaluation, _, run_succeeds _ v evaluation _, ends_pure.2 ⟨rfl, rfl⟩⟩⟩⟩⟩⟩
  obtain ⟨looked, hlog, hlooked⟩ := Only.log_eq (Policy.looksUp_getWithVersion _).isInward hget
  refine ⟨_, _, looked, he, (reads_evaluatePolicy q).keeps he hs, hlooked, ?_⟩
  simp only [State.after_log, hlog, List.append_assoc, List.cons_append, List.nil_append]
  rfl

end Evaluating
end EvaluationRecord

/-! ## A first evaluation -/

namespace Service

/-- A service whose rule engine refuses no source. -/
def lenient : Service := { refusal := fun _ => none }

/-- A caller who may do everything. -/
def administrator : Access.Caller := ⟨"admin", [.administrator]⟩

theorem administrator_allowed (m : Access.Method) :
    lenient.requirements.allow lenient.holds administrator m = true := by
  cases m <;> decide +kernel

theorem ends_administrator {s : State} {o : Operation} {r : Except ServiceError o.Result} {t : State}
    (he : Ends surroundings (o.action lenient.refusal) s r t) :
    Ends surroundings (lenient.perform administrator o) s r t :=
  ends_perform.2 (.inl ⟨administrator_allowed o.method, he⟩)

namespace First

/-- The first of January 2030. -/
def time : Instant := ⟨1893456000, 0⟩

theorem time_isCivil : time.IsCivil where
  least := by decide +kernel
  greatest := by decide +kernel
  nanos_lt := by decide +kernel
  leap := by decide +kernel
  first := by decide +kernel
  last := by decide +kernel

theorem time_isKept : time.IsKept := time_isCivil.toIsKept

/-- The ids that are given. -/
def id : String := "0b7e3c1a-94d2-4f6e-8a50-c3d1e2f4a6b8"

def recordIds : List String :=
  ["1b7e3c1a-94d2-4f6e-8a50-c3d1e2f4a6b8", "2b7e3c1a-94d2-4f6e-8a50-c3d1e2f4a6b8"]

/-- A policy that lets everything pass. -/
def draft : Policy.Draft where
  name := "open"
  description := ""
  regoContent := "package open\npass\x7btrue\x7d\nviolations[result]\x7bresult=" ++
    "\x7b\"pass\":true,\"id\":\"\",\"name\":\"\",\"message\":\"\"\x7d\x7d"
  sourcePath := ""
  message := ""

theorem isValid : (Rego.validate lenient.refusal draft.regoContent).isValid = true :=
  (Rego.isValid_validate ..).2 ⟨by decide +kernel, rfl⟩

/-- Another source for it. -/
def source : String := draft.regoContent ++ "\n"

theorem source_isValid : (Rego.validate lenient.refusal source).isValid = true :=
  (Rego.isValid_validate ..).2 ⟨by decide +kernel, rfl⟩

def group : PolicyGroup := ⟨"production", "", false, time, time⟩

def assignment : PolicyAssignment :=
  ⟨PolicyAssignment.idOf id "production", Policy.versionId id 1, "production", time, time⟩

def inquiry : ResourceInquiry := ⟨"docker://registry/app@sha256:12", "production", ⟨"", ""⟩⟩

/-- What is held before the evaluation. -/
def holdings : Holdings where
  policies := [.policy (draft.policy id time), .version (draft.version id time)]
  groups := [group]
  assignments := [assignment]
  records := []

theorem assignable :
    Holdings.Assignable { holdings with assignments := [] } (Policy.versionId id 1) "production" id where
  parsed := by decide
  version := ⟨draft.version id time, by decide⟩
  policy := ⟨draft.policy id time, by decide, rfl⟩
  group := ⟨group, by decide, rfl⟩

theorem evaluable : EvaluationRecord.Evaluable holdings inquiry where
  nonempty := by decide
  known := by decide
  named := by decide
  group := ⟨group, by decide, rfl⟩
  assigned := by decide
  versions a ha := by
    obtain rfl := List.mem_singleton.1 ha
    exact ⟨draft.version id time, by decide⟩

/-- The first call creates the policy. -/
theorem exists_created : ∃ (r : Policy) (s : State),
    Ends surroundings (lenient.perform administrator (.createPolicy draft)) .initial (.ok r) s ∧
    s.Keeps { holdings with groups := [], assignments := [] } ∧ s.given = [id] ∧ s.times = [time] := by
  have hid : Text.IsUuid id ∧ id ∉ State.initial.given := ⟨by decide, List.not_mem_nil⟩
  obtain ⟨s, he, hs, hgiven, htimes⟩ := Policy.create_succeeds State.keeps_initial draft (by decide)
    (by decide) isValid hid time_isKept
  exact ⟨_, s, ends_administrator he, hs, hgiven, htimes⟩

/-- Of what is held then, the policy and its version are found. -/
theorem policy?_created : Holdings.policy? { holdings with groups := [], assignments := [] } id =
    some (draft.policy id time) := by decide

theorem version?_created : Holdings.version? { holdings with groups := [], assignments := [] }
    (Policy.versionId id (draft.policy id time).currentVersion) = some (draft.version id time) := by
  decide

/-- What is held after another source was given to the policy. -/
def revised : Holdings where
  policies :=
    let revision : Policy.Revision := ⟨none, none, some source, none, none⟩
    let next := revision.version id (draft.version id time) source time
    { holdings with groups := [], assignments := [] }.replacePolicy
      ((draft.policy id time).revised revision (some next) time) ++ [.version next]
  groups := []
  assignments := []
  records := []

/-- And then another call gives it another source. -/
theorem exists_revised {s : State} (hs : s.Keeps { holdings with groups := [], assignments := [] }) :
    ∃ (r : Policy) (t : State), Ends surroundings (lenient.perform administrator
      (.updatePolicy id ⟨none, none, some source, none, none⟩)) s (.ok r) t ∧ t.Keeps revised := by
  obtain ⟨r, t, he, ht⟩ := Policy.update_succeeds hs policy?_created rfl version?_created (by decide) source_isValid
    (by decide) time_isKept
  exact ⟨r, t, ends_administrator he, ht⟩

theorem exists_updated {s : State} (hs : s.Keeps { holdings with groups := [], assignments := [] }) :
    ∃ (r : Policy) (t : State), Ends surroundings (lenient.perform administrator
      (.updatePolicy id ⟨none, none, some source, none, none⟩)) s (.ok r) t := by
  obtain ⟨r, t, he, -⟩ := exists_revised hs
  exact ⟨r, t, he⟩

/-- Two calls lead to a policy and a group. -/
theorem exists_grouped : ∃ (steps : List Step) (s : State), Run lenient .initial steps s ∧
    s.Keeps { holdings with assignments := [] } ∧ s.given = [id] ∧ s.times = [time, time] := by
  obtain ⟨p, s₁, he₁, hs₁, hgiven₁, htimes₁⟩ := exists_created
  obtain ⟨s₂, he₂, hs₂, hgiven₂, htimes₂⟩ := PolicyGroup.create_succeeds hs₁ "production" "" (by decide)
    rfl time_isKept
  refine ⟨_, s₂, .cons (x := ⟨administrator, .createPolicy draft, .ok p, .initial, s₁⟩) he₁
    (.cons (x := ⟨administrator, .createPolicyGroup "production" "", .ok _, s₁, s₂⟩)
      (ends_administrator he₂) (.nil s₂)), hs₂, ?_, ?_⟩
  · rw [hgiven₂, hgiven₁]
  · rw [htimes₂, htimes₁]
    rfl

/-- And a third to an assignment. -/
theorem exists_assigned : ∃ (steps : List Step) (s : State), Run lenient .initial steps s ∧
    s.Keeps holdings ∧ s.given = [id] ∧ ∀ shown ∈ s.times, shown = time := by
  obtain ⟨steps, s, hrun, hs, hgiven, htimes⟩ := exists_grouped
  obtain ⟨t, he, ht, hgiven', htimes'⟩ := PolicyAssignment.create_succeeds hs assignable (by decide) rfl
    time_isKept
  let x : Step := ⟨administrator, .createPolicyAssignment (Policy.versionId id 1) "production",
    .ok assignment, s, t⟩
  have hx : Run lenient s [x] t := .cons (x := x) (ends_administrator he) (.nil t)
  refine ⟨_, t, hrun.append hx, ht, hgiven'.trans hgiven, ?_⟩
  rw [htimes', htimes]
  simp

/-- And a resource is evaluated against it. -/
theorem exists_evaluated : ∃ (steps : List Step) (s : State) (r : EvaluationRecord) (t : State),
    Run lenient .initial steps s ∧ (∀ shown ∈ s.times, shown = time) ∧
    Ends surroundings (lenient.perform administrator (.evaluateResource inquiry)) s (.ok r) t := by
  obtain ⟨steps, s, hrun, hs, hgiven, htimes⟩ := exists_assigned
  have hids : ∀ i ∈ recordIds, Text.IsUuid i ∧ i ∉ s.given := by
    rw [hgiven]
    decide
  obtain ⟨r, t, he⟩ := EvaluationRecord.create_succeeds time hs evaluable rfl hids
    (by decide) time_isKept
  exact ⟨steps, s, r, t, hrun, htimes, ends_administrator he⟩

end First
end Service
end Gatehouse
