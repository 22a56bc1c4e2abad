import Gatehouse.Proofs.Service.Change

/-!
# What the writing actions on policies do

Each action that succeeds is a `Change`.  A run of it is taken apart from left to right, and what was
asked of the store is answered by the holdings.

The one action that writes twice is the deletion.  If it fails, it fails before its first write
(`delete_ends`): the assignments that are dropped were just found, and the policy that is marked was
found on another shelf.
-/

namespace Gatehouse.Policy

open Service Store

section Writing

variable {refusal : Rego.Refusal} {s t : State} {h : Holdings} {id : String}

/-! ## Creating -/

/-- No entry has an id that was never given, or that of a version of such a policy. -/
theorem entry_id_ne (hs : s.Keeps h) (hid : Text.IsUuid id ∧ id ∉ s.given) :
    ∀ e ∈ h.policies, e.id ≠ id ∧ e.id ≠ versionId id 1 := by
  intro e he
  cases e with
  | policy p =>
    have hgiven := hs.sound.policyId p he
    refine ⟨fun heq => hid.2 (heq ▸ hgiven), fun heq => ?_⟩
    have heq' : p.id = versionId id 1 := heq
    exact (hs.honest.uuid _ hgiven).point_notMem (heq' ▸ point_mem_versionId id 1)
  | version v =>
    have hv := hs.sound.versionId v he
    refine ⟨fun heq => ?_, fun heq => ?_⟩
    · have heq' : id = versionId v.policyId v.version := (show v.id = id from heq) ▸ hv
      exact hid.1.point_notMem (heq' ▸ point_mem_versionId _ _)
    · obtain ⟨p, hp, howner⟩ := hs.sound.owned v he
      obtain ⟨hpolicy, -⟩ := versionId_injective (hv.symm.trans heq)
      exact hid.2 (hpolicy ▸ howner ▸ hs.sound.policyId p hp)

/-- A new policy and its version find their ids free. -/
theorem changeAll?_create (hs : s.Keeps h) (hid : Text.IsUuid id ∧ id ∉ s.given) (draft : Draft)
    (time : Instant) :
    Write.changeAll? [.create (draft.policy id time).document,
      .create (versionDocument (draft.version id time))] (h.documents .policies) =
    some ((h.policies ++ [PolicyEntry.policy (draft.policy id time),
      PolicyEntry.version (draft.version id time)]).map PolicyEntry.document) := by
  have hne : id ≠ versionId id 1 := fun heq => hid.1.point_notMem (heq ▸ point_mem_versionId id 1)
  have hcreate := hs.holds.changeAll?_create .policies
    [(draft.policy id time).document, versionDocument (draft.version id time)]
    (by simpa [document, versionDocument, Draft.policy, Draft.version] using hne) (by
      intro d hd n hn
      obtain ⟨e, he, rfl⟩ := List.mem_map.1 hd
      obtain ⟨hpolicy, hversion⟩ := entry_id_ne hs hid e he
      rw [e.document_id]
      rcases List.mem_pair.1 hn with rfl | rfl
      · exact hpolicy
      · exact hversion)
  rw [List.map_append]
  exact hcreate

/-- The bulk that creates them is accepted. -/
theorem perform_create (hs : s.Keeps h) (hid : Text.IsUuid id ∧ id ∉ s.given) (draft : Draft)
    (time : Instant) :
    (Memory.perform (.bulk Shelf.policies.index [.create (draft.policy id time).document,
      .create (versionDocument (draft.version id time))]) s.memory).1 = .ok () ∧
    Holds (Memory.perform (.bulk Shelf.policies.index [.create (draft.policy id time).document,
      .create (versionDocument (draft.version id time))]) s.memory).2
      { h with policies :=
        h.policies ++ [.policy (draft.policy id time), .version (draft.version id time)] } :=
  hs.holds.perform_bulk
    { h with policies := h.policies ++ [.policy (draft.policy id time), .version (draft.version id time)] }
    (changeAll?_create hs hid draft time)
    (Holdings.documents_frame (.inl rfl) (.inr rfl) (.inr rfl) (.inr rfl))

theorem create_ok (hs : s.Keeps h) {draft : Draft} {r : Policy}
    (he : Ends surroundings (create refusal draft) s (.ok r) t) :
    ∃ h', Holds t.memory h' ∧ Change refusal s t h (.createPolicy draft) r h' := by
  obtain ⟨-, he⟩ := ends_ensure_bind_ok.1 he
  obtain ⟨-, he⟩ := ends_ensure_bind_ok.1 he
  obtain ⟨hvalid, he⟩ := ends_ensure_bind_ok.1 he
  obtain ⟨id, hid, he⟩ := ends_freshId_bind.1 he
  have hgiven : id ∈ t.given := State.given_subset he.log_isPrefix (State.mem_given_freshId id)
  obtain ⟨time, -, he⟩ := ends_now_bind.1 he
  have hshown : time ∈ t.times := State.times_subset he.log_isPrefix (State.mem_times_now time)
  obtain ⟨_, -, he⟩ := ends_call_bind_ok.1 he
  obtain ⟨hr, rfl⟩ := ends_pure.1 he
  obtain rfl := Except.ok.inj hr
  exact ⟨_, (perform_create hs hid draft time).2, .createPolicy hvalid hid.2 hgiven hshown⟩

/-! ## Revising -/

theorem change_update_policy (h : Holdings) (p : Policy) :
    (Write.update p.document).change (h.policies.map PolicyEntry.document) =
      (h.replacePolicy p).map PolicyEntry.document := by
  have hchange := Write.change_update_map PolicyEntry.document h.policies (.policy p)
  simp only [PolicyEntry.document_id] at hchange
  exact hchange

theorem fits_update_policy {p q : Policy} (hp : .policy p ∈ h.policies) (hq : q.id = p.id) :
    (Write.update q.document).Fits (h.documents .policies) :=
  ⟨_, List.mem_map.2 ⟨_, hp, rfl⟩, hq.symm⟩

/-- The version that is looked up under its id has the number that was looked for. -/
theorem version_of_found (hs : s.Keeps h) {number : UInt32} {v : PolicyVersion}
    (hv : h.version? (versionId id number) = some v) : v.policyId = id ∧ v.version = number := by
  obtain ⟨hmem, hid⟩ := hs.holds.version?_eq_some.1 hv
  exact versionId_injective ((hs.sound.versionId v hmem).symm.trans hid)

theorem nextVersion?_ok {p : Policy} {current : PolicyVersion} {revision : Revision}
    {next? : Option PolicyVersion}
    (he : Ends surroundings (nextVersion? refusal p current revision) s (.ok next?) t) :
    revision.IsNext refusal t p.id current next? ∧ s.Untouched t := by
  refine ⟨?_, (reads_nextVersion? refusal p current revision).untouched he⟩
  unfold nextVersion? at he
  unfold Revision.IsNext Revision.newSource?
  cases hsource : revision.regoContent? with
  | none =>
    rw [hsource] at he
    exact Except.ok.inj (ends_pure.1 he).1
  | some source =>
    rw [hsource] at he
    by_cases hsame : source = current.regoContent
    · -- the source that the policy has already is no new one
      simp only [hsame, if_true] at he
      have hnone := Except.ok.inj (ends_pure.1 he).1
      simpa [hsame, Option.filter] using hnone
    · simp only [hsame, if_false] at he
      obtain ⟨hvalid, he⟩ := ends_ensure_bind_ok.1 he
      obtain ⟨time, -, he⟩ := ends_now_bind.1 he
      obtain ⟨hnext, rfl⟩ := ends_pure.1 he
      simp only [Option.filter, hsame, decide_not, decide_false, Bool.not_false, if_true]
      exact ⟨hvalid, time, State.mem_times_now time, Except.ok.inj hnext⟩

/-- A policy can be replaced and a version added in one bulk, if the id of the version is free. -/
theorem changeAll?_revise {p q : Policy} (next? : Option PolicyVersion)
    (hp : .policy p ∈ h.policies) (hq : q.id = p.id) (hfree : ∀ v, next? = some v → h.filed? v.id = none) :
    Write.changeAll? (.update q.document ::
      (next?.map fun v => Write.create (versionDocument v)).toList) (h.documents .policies) =
      some ((h.replacePolicy q ++ next?.toList.map PolicyEntry.version).map PolicyEntry.document) := by
  rw [Write.changeAll?, if_pos (fits_update_policy hp hq),
    show (Write.update q.document).change (h.documents .policies) = _ from change_update_policy h q]
  cases next? with
  | none => simp [Write.changeAll?]
  | some v =>
    -- the second write has to fit what the first one leaves, where all ids are as before
    have hne : ∀ e ∈ h.policies, e.id ≠ v.id := fun e he => by
      simpa using List.find?_eq_none.1 (hfree v rfl) e he
    have hfits : (Write.create (versionDocument v)).Fits
        ((h.replacePolicy q).map PolicyEntry.document) := by
      intro d hd
      obtain ⟨f, hf, rfl⟩ := List.mem_map.1 hd
      obtain ⟨e, he, rfl⟩ := List.mem_map.1 hf
      rw [PolicyEntry.document_id]
      split
      · -- the replaced policy has the id of the one that was there
        exact fun heq => hne _ hp (hq.symm.trans heq)
      · exact hne e he
    rw [Option.map_some, Option.toList_some, Write.changeAll?, if_pos hfits, Write.changeAll?,
      Write.change, List.map_append]
    rfl

/-- A revision's bulk, if it succeeds, replaces the policy and adds the next version. -/
theorem changeAll?_update {p : Policy} {next? : Option PolicyVersion} {ds : List Document}
    (hws : Write.changeAll? (.update p.document ::
      (next?.map fun v => Write.create (versionDocument v)).toList) (h.documents .policies) = some ds) :
    ds = (h.replacePolicy p ++ next?.toList.map PolicyEntry.version).map PolicyEntry.document := by
  rw [Write.changeAll?] at hws
  split at hws
  · rw [show (Write.update p.document).change (h.documents .policies) = _ from
      change_update_policy h p] at hws
    cases next? with
    | none => simpa [Write.changeAll?, eq_comm] using hws
    | some v =>
      simp only [Option.map_some, Option.toList_some, Write.changeAll?] at hws
      split at hws
      · rw [← Option.some.inj hws]
        simp [Write.change, PolicyEntry.document]
      · contradiction
  · contradiction

theorem update_ok (hs : s.Keeps h) {revision : Revision} {r : Policy}
    (he : Ends surroundings (update refusal id revision) s (.ok r) t) :
    ∃ h', Holds t.memory h' ∧ Change refusal s t h (.updatePolicy id revision) r h' := by
  obtain ⟨p, _, hrequire, he⟩ := ends_bind_ok.1 he
  obtain ⟨hp, rfl⟩ := (ends_require_ok hs).1 hrequire
  obtain ⟨hlive, he⟩ := ends_ensure_bind_ok.1 he
  obtain ⟨found, _, hfind, he⟩ := ends_bind_ok.1 he
  have hs₁ := (reads_require id).keeps hrequire hs
  obtain ⟨hfound, rfl⟩ := (ends_findVersion? hs₁).1 hfind
  have hs₂ := (reads_findVersion? _).keeps hfind hs₁
  obtain rfl := Except.ok.inj hfound
  cases hv : h.version? (versionId id p.currentVersion) with
  | none =>
    rw [hv] at he
    obtain ⟨v, _, hthrow, -⟩ := ends_bind_ok.1 he
    exact absurd (ends_throw.1 hthrow).1 (by simp)
  | some v =>
    rw [hv] at he
    obtain ⟨_, he⟩ := ends_ensure_bind_ok.1 he
    obtain ⟨next?, _, hnext, he⟩ := ends_bind_ok.1 he
    have hs₃ := (reads_nextVersion? ..).keeps hnext hs₂
    obtain ⟨hnext', -⟩ := nextVersion?_ok hnext
    have hnext'' := hnext'.mono he.log_isPrefix
    obtain ⟨time, -, he⟩ := ends_now_bind.1 he
    have hshown : time ∈ t.times := State.times_subset he.log_isPrefix (State.mem_times_now time)
    obtain ⟨_, hbulk, he⟩ := ends_call_bind_ok.1 he
    obtain ⟨hr, rfl⟩ := ends_pure.1 he
    obtain rfl := Except.ok.inj hr
    obtain ⟨-, hpid⟩ := hs.holds.policy?_eq_some.1 hp
    -- the bulk has succeeded, so it made its changes, whatever else was held
    obtain ⟨ds, hchange⟩ := hs₃.holds.changeAll?_of_perform hbulk
    have hds := changeAll?_update (p := p.revised revision next? time) hchange
    rw [hds] at hchange
    have hholds := hs₃.holds.perform_bulk
      { h with
        policies :=
          h.replacePolicy (p.revised revision next? time) ++ next?.toList.map PolicyEntry.version }
      hchange (Holdings.documents_frame (.inl rfl) (.inr rfl) (.inr rfl) (.inr rfl))
    exact ⟨_, hholds.2, .updatePolicy hp (by simpa using hlive) hv (hpid ▸ hnext'') hshown⟩

/-! ## Deleting -/

/-- The assignments that a scope covers are dropped in one bulk. -/
theorem changeAll?_drop (hs : s.Keeps h) {as : List PolicyAssignment} {p : PolicyAssignment → Bool}
    (has : as.Perm (h.assignments.filter p)) :
    Write.changeAll? (as.map fun a => .delete a.id) (h.documents .policyAssignments) =
      some ((h.assignments.filter fun a => !p a).map PolicyAssignment.document) := by
  have hids : (h.assignments.map PolicyAssignment.id).Nodup := by
    have hnodup := hs.holds.ordered.nodup_ids Shelf.policyAssignments.index
    rwa [hs.holds.documents, Holdings.documents, List.map_map] at hnodup
  -- each of the ids is there, and is dropped once
  have hdropped : (as.map PolicyAssignment.id).Nodup :=
    (has.map PolicyAssignment.id).nodup_iff.2 (hids.sublist (List.filter_sublist.map _))
  have hmem : ∀ id ∈ as.map PolicyAssignment.id, ∃ d ∈ h.documents .policyAssignments, d.id = id := by
    intro id hid
    obtain ⟨a, ha, rfl⟩ := List.mem_map.1 hid
    exact ⟨_, List.mem_map.2 ⟨a, List.mem_of_mem_filter (has.mem_iff.1 ha), rfl⟩, rfl⟩
  have hwrites : as.map (fun a => Write.delete a.id) =
      (as.map PolicyAssignment.id).map Write.delete := by
    rw [List.map_map]
    rfl
  rw [hwrites, Write.changeAll?_delete hdropped hmem, Holdings.documents, List.filter_map]
  congr 2
  refine List.filter_congr fun a ha => ?_
  -- the dropped ids are those of the assignments that are covered
  have hiff : a.id ∈ as.map PolicyAssignment.id ↔ p a = true := by
    constructor
    · intro hid
      obtain ⟨b, hb, hbid⟩ := List.mem_map.1 hid
      obtain ⟨hb, hcovered⟩ := List.mem_filter.1 (has.mem_iff.1 hb)
      rwa [← List.inj_on_of_nodup_map hids hb ha hbid]
    · intro hcovered
      exact List.mem_map.2 ⟨a, has.mem_iff.2 (List.mem_filter.2 ⟨ha, hcovered⟩), rfl⟩
  rw [Bool.eq_iff_iff, Function.comp_apply, decide_eq_true_eq]
  show a.id ∉ as.map PolicyAssignment.id ↔ (!p a) = true
  rw [hiff]
  simp

/-- The bulk that drops them is accepted. -/
theorem perform_drop (hs : s.Keeps h) {as : List PolicyAssignment} {p : PolicyAssignment → Bool}
    (has : as.Perm (h.assignments.filter p)) :
    (Memory.perform (.bulk Shelf.policyAssignments.index (as.map fun a => .delete a.id)) s.memory).1 =
      .ok () ∧
    Holds (Memory.perform (.bulk Shelf.policyAssignments.index (as.map fun a => .delete a.id))
      s.memory).2 { h with assignments := h.assignments.filter fun a => !p a } :=
  hs.holds.perform_bulk { h with assignments := h.assignments.filter fun a => !p a }
    (changeAll?_drop hs has) (Holdings.documents_frame (.inr rfl) (.inr rfl) (.inl rfl) (.inr rfl))

/-- The second write of a deletion. -/
def mark (p : Policy) : Action Unit := do
  let time ← now
  let _ ← call "error deleting policy"
    (.write Shelf.policies.index (.update (p.tombstone time).document))

/-- A policy that is held can be marked. -/
theorem perform_mark (hs : Holds s.memory h) {p : Policy} (hp : .policy p ∈ h.policies)
    (time : Instant) :
    (Memory.perform (.write Shelf.policies.index (.update (p.tombstone time).document)) s.memory).1 =
      .ok () ∧
    Holds (Memory.perform (.write Shelf.policies.index (.update (p.tombstone time).document)) s.memory).2
      { h with policies := h.replacePolicy (p.tombstone time) } :=
  hs.perform_write { h with policies := h.replacePolicy (p.tombstone time) }
    (fits_update_policy (q := p.tombstone time) hp rfl) (change_update_policy h _)
    (Holdings.documents_frame (.inl rfl) (.inr rfl) (.inr rfl) (.inr rfl))

/-- The second write of a deletion cannot be refused. -/
theorem ends_mark (hs : Holds s.memory h) {p : Policy} (hp : .policy p ∈ h.policies)
    {r : Except ServiceError Unit} (he : Ends surroundings (mark p) s r t) :
    ∃ time ∈ t.times, r = .ok () ∧
      Holds t.memory { h with policies := h.replacePolicy (p.tombstone time) } := by
  obtain ⟨time, -, he⟩ := ends_now_bind.1 he
  have hshown : time ∈ t.times := State.times_subset he.log_isPrefix (State.mem_times_now time)
  have hwrite := perform_mark hs hp time
  refine ⟨time, hshown, ?_⟩
  rcases ends_bind.1 he with ⟨_, m, hcall, he⟩ | ⟨e, hcall, -⟩
  · obtain ⟨-, rfl⟩ := ends_call.1 hcall
    obtain ⟨rfl, rfl⟩ := ends_pure.1 he
    exact ⟨rfl, hwrite.2⟩
  · obtain ⟨hr, -⟩ := ends_call.1 hcall
    rw [State.after_memory_now, hwrite.1] at hr
    contradiction

/-- **A deletion drops and marks, or does nothing.** -/
theorem delete_ends (hs : s.Keeps h) {r : Except ServiceError Unit}
    (he : Ends surroundings (delete id) s r t) :
    (∃ e, r = .error e ∧ t.memory = s.memory) ∨
      ∃ h', r = .ok () ∧ Holds t.memory h' ∧ Change refusal s t h (.deletePolicy id) () h' := by
  -- as long as it only reads, it may fail; each failure leaves the store alone
  rcases (reads_require id).failed_or he with hfailed | ⟨p, m, hrequire, he⟩
  · exact .inl hfailed
  have hs₁ := (reads_require id).keeps hrequire hs
  obtain ⟨hp, rfl⟩ := (ends_require_ok hs).1 hrequire
  rcases (reads_ensure _ _).failed_or he with hfailed | ⟨_, m, hensure, he⟩
  · exact .inl hfailed
  obtain ⟨hlive, rfl⟩ := ends_ensure_ok.1 hensure
  rcases (AssignmentScope.reads_assignments _).failed_or he with hfailed | ⟨as, m, hsearch, he⟩
  · exact .inl hfailed
  have hs₂ := (AssignmentScope.reads_assignments _).keeps hsearch hs₁
  obtain ⟨_, has, hperm, -, -⟩ := ends_assignments hs₁ hsearch
  obtain rfl := Except.ok.inj has
  refine .inr ?_
  have hmem : .policy p ∈ h.policies := (hs.holds.policy?_eq_some.1 hp).1
  -- what is left when the assignments are dropped, in the branch that drops and in the other
  let rest : Holdings := { h with
    assignments := h.assignments.filter fun a => !(AssignmentScope.policy id).covers a }
  suffices hmark : ∃ u, Holds u.memory rest ∧ Ends surroundings (mark p) u r t by
    obtain ⟨u, hu, he⟩ := hmark
    obtain ⟨time, hshown, hr, hholds⟩ := ends_mark hu hmem he
    exact ⟨_, hr, hholds, .deletePolicy hp (by simpa using hlive) hshown⟩
  cases as with
  | nil =>
    -- nothing is assigned, and the first write is left out
    have hrest : rest = h := by
      have hnone : h.assignments.filter (AssignmentScope.policy id).covers = [] := hperm.nil_eq.symm
      have hall : h.assignments.filter (fun a => !(AssignmentScope.policy id).covers a) =
          h.assignments := by
        rw [List.filter_eq_self]
        intro a ha
        simpa using (List.filter_eq_nil_iff.1 hnone) a ha
      simp only [rest, hall]
    exact ⟨m, hrest ▸ hs₂.holds, he⟩
  | cons a as =>
    have hbulk := perform_drop hs₂ hperm
    rcases ends_bind.1 he with ⟨_, u, hcall, he⟩ | ⟨e, hcall, -⟩
    · obtain ⟨-, rfl⟩ := ends_call.1 hcall
      exact ⟨_, hbulk.2, he⟩
    · obtain ⟨hr, -⟩ := ends_call.1 hcall
      rw [hbulk.1] at hr
      contradiction

end Writing
end Gatehouse.Policy
