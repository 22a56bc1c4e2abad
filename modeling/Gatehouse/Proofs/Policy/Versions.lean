import Gatehouse.Proofs.Service.Progress

/-!
# The history of a policy

A policy is a sequence of versions.  The policy and its versions are documents of one index, so every
operation that touches that index could break the sequence: leave a number out, give one twice, write
over a version, bring a deleted policy back.  None does, in any run.

1. **Content updates** (`Step.setsContent`): the calls that are to make a new version.
2. **Numbering** (`IsNumbered`): the versions of a policy are 1, 2, ... up to the current one, and the
   current one is at most one more than the number of its content updates.
3. **Growth** (`Grows`): from one state to a later one versions stay, policies stay, their current
   versions go up by the number of content updates, and what is deleted stays deleted.
4. **The crux** is the number after the current one (`numbered_updatePolicy`).  It is free because the
   versions end at the current one, and it does not wrap around while there are numbers left.
-/

namespace Gatehouse

open Service Store

/-! ## Content updates -/

namespace Service

/-- The source of the current version of a policy. -/
def State.currentContent? (s : State) (id : String) : Option String := do
  let p ← s.memory.policy? id
  let v ← s.memory.version? (Policy.versionId id p.currentVersion)
  return v.regoContent

/-- The operation asks for another source than the current one of a policy. -/
def Operation.asksForContent (s : State) (policyId : String) : Operation → Bool
  | .updatePolicy id revision =>
    id = policyId && revision.regoContent?.any fun source => s.currentContent? id ≠ some source
  | _ => false

/-- How many versions the operation makes of a policy if it succeeds. -/
def Operation.newVersions (s : State) (o : Operation) (policyId : String) : Nat :=
  if o.asksForContent s policyId = true then 1 else 0

/-- A call that succeeds and gives a policy another source than its current one. -/
def Step.setsContent (policyId : String) (x : Step) : Bool :=
  match x.outcome with
  | .ok _ => x.operation.asksForContent x.before policyId
  | .error _ => false

end Service

/-! ## Numbering -/

/-- The document is that of a version of a policy. -/
def Policy.isVersionOf (policyId : String) (d : Document) : Bool :=
  d.relation? = some versionRelation && d.parent? = some policyId

namespace Service

/-- The version of a policy that an entry is. -/
def PolicyEntry.versionOf? (policyId : String) : PolicyEntry → Option PolicyVersion
  | version v => if v.policyId = policyId then some v else none
  | policy _ => none

theorem PolicyEntry.filterMap_version (policyId : String) (v : PolicyVersion) :
    [version v].filterMap (versionOf? policyId) = if v.policyId = policyId then [v] else [] := by
  by_cases hv : v.policyId = policyId
  · have hof : versionOf? policyId (version v) = some v := if_pos hv
    rw [if_pos hv, List.filterMap_cons_some hof, List.filterMap_nil]
  · have hof : versionOf? policyId (version v) = none := if_neg hv
    rw [if_neg hv, List.filterMap_cons_none hof, List.filterMap_nil]

namespace Holdings

/-- The versions of a policy, in the order in which they were stored. -/
def versionsOf (h : Holdings) (policyId : String) : List PolicyVersion :=
  h.policies.filterMap (PolicyEntry.versionOf? policyId)

/-- The versions of every policy are numbered from 1 to the current one, and there are no more of them
than content updates, apart from the first. -/
def IsNumbered (h : Holdings) (updates : String → Nat) : Prop :=
  ∀ p, .policy p ∈ h.policies →
    (h.versionsOf p.id).map (fun v => v.version.toNat) = List.range' 1 p.currentVersion.toNat ∧
    p.currentVersion.toNat ≤ 1 + updates p.id

/-- Versions and policies stay, and the current versions go up by so many. -/
structure Grows (h h' : Holdings) (updates : String → Nat) : Prop where
  version : ∀ v, .version v ∈ h.policies → .version v ∈ h'.policies
  policy : ∀ p, .policy p ∈ h.policies → ∃ p', .policy p' ∈ h'.policies ∧ p'.id = p.id ∧
    p'.currentVersion.toNat = p.currentVersion.toNat + updates p.id ∧
    (p.deleted = true → p'.deleted = true)

variable {h h' h'' : Holdings} {updates more : String → Nat}

theorem Grows.refl (h : Holdings) : h.Grows h fun _ => 0 :=
  ⟨fun _ hv => hv, fun p hp => ⟨p, hp, rfl, rfl, fun hdeleted => hdeleted⟩⟩

theorem Grows.trans (hh : h.Grows h' updates) (hh' : h'.Grows h'' more) :
    h.Grows h'' fun id => updates id + more id where
  version v hv := hh'.version v (hh.version v hv)
  policy p hp := by
    obtain ⟨p', hp', hid', hcurrent', hdeleted'⟩ := hh.policy p hp
    obtain ⟨p'', hp'', hid'', hcurrent'', hdeleted''⟩ := hh'.policy p' hp'
    refine ⟨p'', hp'', hid''.trans hid', ?_, fun hdeleted => hdeleted'' (hdeleted' hdeleted)⟩
    rw [hcurrent'', hcurrent', hid', Nat.add_assoc]

/-- What leaves the policies alone neither numbers nor grows. -/
theorem IsNumbered.of_policies_eq (hh : h.IsNumbered updates) (heq : h'.policies = h.policies) :
    h'.IsNumbered updates := by
  intro p hp
  rw [heq] at hp
  rw [versionsOf, heq]
  exact hh p hp

theorem Grows.of_policies_eq (heq : h'.policies = h.policies) : h.Grows h' fun _ => 0 := by
  obtain ⟨hversion, hpolicy⟩ := Grows.refl h
  constructor
  · rwa [heq]
  · rwa [heq]

end Holdings

section Changing

variable {refusal : Rego.Refusal} {s t : State} {h : Holdings} {updates : String → Nat} {id : String}

theorem mem_versionsOf {v : PolicyVersion} {policyId : String} :
    v ∈ h.versionsOf policyId ↔ .version v ∈ h.policies ∧ v.policyId = policyId := by
  rw [Holdings.versionsOf, List.mem_filterMap]
  constructor
  · rintro ⟨e, he, hof⟩
    cases e with
    | policy p => contradiction
    | version w =>
      by_cases hw : w.policyId = policyId
      · rw [PolicyEntry.versionOf?, if_pos hw] at hof
        obtain rfl := Option.some.inj hof
        exact ⟨he, hw⟩
      · rw [PolicyEntry.versionOf?, if_neg hw] at hof
        contradiction
  · rintro ⟨hv, hpolicy⟩
    exact ⟨_, hv, if_pos hpolicy⟩

/-- The documents of the versions of a policy are those that name it as their parent. -/
theorem Holds.filter_isVersionOf {m : Memory} (hm : Holds m h) (policyId : String) :
    (m.documents Shelf.policies.index).filter (Policy.isVersionOf policyId) =
      (h.versionsOf policyId).map Policy.versionDocument := by
  rw [hm.documents, Holdings.documents, Holdings.versionsOf]
  induction h.policies with
  | nil => rfl
  | cons e es ih =>
    cases e with
    | policy p =>
      have hnot : Policy.isVersionOf policyId p.document = false := rfl
      rw [List.map_cons, PolicyEntry.document, List.filter_cons_of_neg (by simp [hnot]), ih,
        List.filterMap_cons_none rfl]
    | version v =>
      have hiff : Policy.isVersionOf policyId (Policy.versionDocument v) = (v.policyId = policyId : Bool) := by
        simp [Policy.isVersionOf, Policy.versionDocument, Document.relation?, Document.parent?,
          Join.ofChild]
      rw [← List.singleton_append (x := PolicyEntry.version v), List.filterMap_append,
        PolicyEntry.filterMap_version, List.map_append, List.map_append, ← ih]
      rw [List.map_cons, List.map_nil, PolicyEntry.document, List.singleton_append]
      by_cases hv : v.policyId = policyId
      · rw [if_pos hv, List.filter_cons_of_pos (by simp [hiff, hv])]
        rfl
      · rw [if_neg hv, List.filter_cons_of_neg (by simp [hiff, hv])]
        rfl

/-- Putting a policy in the place of another one leaves the versions alone. -/
theorem Holds.versionsOf_replacePolicy {m : Memory} (hm : Holds m h) {p q : Policy}
    (hp : .policy p ∈ h.policies) (hq : q.id = p.id) (policyId : String) :
    (h.replacePolicy q).filterMap (PolicyEntry.versionOf? policyId) = h.versionsOf policyId := by
  rw [Holdings.replacePolicy, List.filterMap_map, Holdings.versionsOf]
  refine List.filterMap_congr fun e he => ?_
  by_cases hid : e.id = q.id
  · -- the entry of that id is the policy, and neither it nor the other one is a version
    have hep : e = .policy p :=
      List.inj_on_of_nodup_map hm.nodup_policies he hp (hid.trans hq)
    rw [Function.comp_apply, if_pos hid, hep]
    rfl
  · rw [Function.comp_apply, if_neg hid]

theorem Holds.version_mem_replacePolicy {m : Memory} (hm : Holds m h) {p q : Policy}
    (hp : .policy p ∈ h.policies) (hq : q.id = p.id) {v : PolicyVersion}
    (hv : .version v ∈ h.policies) : .version v ∈ h.replacePolicy q := by
  refine List.mem_map.2 ⟨_, hv, ?_⟩
  refine if_neg fun hid => ?_
  have hne := List.inj_on_of_nodup_map hm.nodup_policies hv hp (hid.trans hq)
  contradiction

/-- **No change takes a version away.** -/
theorem Change.version_mem {o : Operation} {r : o.Result} {h' : Holdings} (hs : s.Keeps h)
    (hc : Change refusal s t h o r h') {v : PolicyVersion} (hv : .version v ∈ h.policies) :
    .version v ∈ h'.policies := by
  cases hc with
  | createPolicy valid fresh given shown => exact List.mem_append_left _ hv
  | @updatePolicy id revision p current next? time found live last next shown =>
    obtain ⟨hp, -⟩ := hs.holds.policy?_eq_some.1 found
    exact List.mem_append_left _
      (hs.holds.version_mem_replacePolicy (q := p.revised revision next? time) hp rfl hv)
  | @deletePolicy id p time found live shown =>
    obtain ⟨hp, -⟩ := hs.holds.policy?_eq_some.1 found
    exact hs.holds.version_mem_replacePolicy (q := p.tombstone time) hp rfl hv
  -- the other changes are on other shelves
  | _ => exact hv

/-- A history grows when a policy takes the place of another one, with a later current version. -/
theorem Holds.grows_replacePolicy {m : Memory} (hm : Holds m h) {p q : Policy} (more : Nat)
    (hp : .policy p ∈ h.policies) (hq : q.id = p.id)
    (hcurrent : q.currentVersion.toNat = p.currentVersion.toNat + more)
    (hdeleted : p.deleted = true → q.deleted = true) :
    h.Grows { h with policies := h.replacePolicy q } fun id => if p.id = id then more else 0 where
  version v hv := hm.version_mem_replacePolicy hp hq hv
  policy r hr := by
    by_cases hid : r.id = q.id
    · have hrp : PolicyEntry.policy r = .policy p :=
        List.inj_on_of_nodup_map hm.nodup_policies hr hp (hid.trans hq)
      obtain rfl := PolicyEntry.policy.inj hrp
      refine ⟨q, List.mem_map.2 ⟨_, hr, if_pos hid⟩, hq, ?_, hdeleted⟩
      rw [hcurrent, if_pos rfl]
    · refine ⟨r, List.mem_map.2 ⟨_, hr, if_neg hid⟩, rfl, ?_, fun hdeleted => hdeleted⟩
      rw [if_neg fun heq => hid (heq.symm.trans hq.symm), Nat.add_zero]

/-- A new policy has one version, and the others have no more than before. -/
theorem numbered_createPolicy (hs : s.Keeps h) (hh : h.IsNumbered updates) (hid : id ∉ s.given)
    (draft : Policy.Draft) (time : Instant) :
    Holdings.IsNumbered { h with policies := h.policies ++
      [.policy (draft.policy id time), .version (draft.version id time)] } updates := by
  intro p hp
  rw [Holdings.versionsOf, List.filterMap_append]
  rcases List.mem_append.1 hp with hold | hnew
  · have hne : id ≠ p.id := fun heq => hid (heq ▸ hs.sound.policyId p hold)
    have hnone : [PolicyEntry.policy (draft.policy id time), .version (draft.version id time)].filterMap
        (PolicyEntry.versionOf? p.id) = [] := by
      rw [List.filterMap_cons_none rfl, PolicyEntry.filterMap_version]
      exact if_neg hne
    rw [hnone, List.append_nil]
    exact hh p hold
  · obtain rfl : p = draft.policy id time := by simpa using hnew
    have hold : h.policies.filterMap (PolicyEntry.versionOf? (draft.policy id time).id) = [] := by
      rw [List.filterMap_eq_nil_iff]
      intro e he
      cases e with
      | policy q => rfl
      | version v =>
        -- the policy of a version that is held was given its id before
        have hne : ¬ v.policyId = (draft.policy id time).id := fun heq => by
          obtain ⟨q, hq, howner⟩ := hs.sound.owned v he
          have hqid : q.id = id := howner.trans heq
          exact hid (hqid ▸ hs.sound.policyId q hq)
        exact if_neg hne
    have hfirst : [PolicyEntry.policy (draft.policy id time), .version (draft.version id time)].filterMap
        (PolicyEntry.versionOf? (draft.policy id time).id) = [draft.version id time] := by
      rw [List.filterMap_cons_none rfl, PolicyEntry.filterMap_version]
      exact if_pos rfl
    rw [hold, List.nil_append, hfirst]
    exact ⟨rfl, Nat.le_add_right 1 _⟩

/-- A policy that keeps its current version in the place of another one changes no number. -/
theorem numbered_replacePolicy (hs : s.Keeps h) (hh : h.IsNumbered updates) {p q : Policy}
    (hp : .policy p ∈ h.policies) (hq : q.id = p.id) (hcurrent : q.currentVersion = p.currentVersion) :
    Holdings.IsNumbered { h with policies := h.replacePolicy q } updates := by
  intro r hr
  rw [Holdings.versionsOf, hs.holds.versionsOf_replacePolicy hp hq]
  rcases Holdings.policy_mem_replacePolicy hr with rfl | ⟨hr, -⟩
  · rw [hcurrent, hq]
    exact hh p hp
  · exact hh r hr

/-- **The next version of a policy has the next number.** -/
theorem numbered_updatePolicy (hs : s.Keeps h) (hh : h.IsNumbered updates) {p q : Policy}
    {v : PolicyVersion} (hp : .policy p ∈ h.policies) (hq : q.id = p.id)
    (hbound : updates p.id + 1 < UInt32.size - 1) (hv : v.policyId = p.id)
    (hnumber : v.version = p.currentVersion + 1) (hcurrent : q.currentVersion = v.version) :
    v.version.toNat = p.currentVersion.toNat + 1 ∧
    Holdings.IsNumbered { h with policies := h.replacePolicy q ++ [.version v] }
      (fun id => updates id + if p.id = id then 1 else 0) := by
  obtain ⟨hchain, hle⟩ := hh p hp
  -- a number is left, so that the one after the current one does not start again from 0
  have hnext : v.version.toNat = p.currentVersion.toNat + 1 := by
    rw [hnumber, UInt32.toNat_add, UInt32.toNat_one, Nat.mod_eq_of_lt]
    have hsize : UInt32.size = 2 ^ 32 := rfl
    omega
  refine ⟨hnext, fun r hr => ?_⟩
  rw [Holdings.versionsOf, List.filterMap_append, hs.holds.versionsOf_replacePolicy hp hq,
    PolicyEntry.filterMap_version]
  have hr : .policy r ∈ h.replacePolicy q := by simpa using hr
  beta_reduce
  rcases Holdings.policy_mem_replacePolicy hr with rfl | ⟨hr, hne⟩
  · rw [if_pos (hv.trans hq.symm), List.map_append, hq, hchain, hcurrent, hnext, if_pos rfl]
    refine ⟨?_, by omega⟩
    rw [List.range'_concat]
    simp [hnext, Nat.add_comm]
  · -- the versions of another policy are as they were
    have hother : ¬ v.policyId = r.id := fun heq => hne (heq.symm.trans (hv.trans hq.symm))
    rw [if_neg hother, List.append_nil, if_neg (hv ▸ hother), Nat.add_zero]
    exact hh r hr

/-! ## Every change -/

theorem asksForContent_updatePolicy (hs : s.Keeps h) (revision : Policy.Revision) {p : Policy}
    {current : PolicyVersion} (found : h.policy? id = some p)
    (last : h.version? (Policy.versionId id p.currentVersion) = some current) (policyId : String) :
    Operation.asksForContent s policyId (.updatePolicy id revision) =
      (id = policyId && (revision.newSource? current).isSome) := by
  have hcontent : s.currentContent? id = some current.regoContent := by
    rw [State.currentContent?, hs.policy?_eq, found]
    show (s.memory.version? (Policy.versionId id p.currentVersion) >>= fun v => some v.regoContent) = _
    rw [hs.version?_eq, last]
    rfl
  rw [Operation.asksForContent, hcontent, Policy.Revision.newSource?]
  cases revision.regoContent? with
  | none => rfl
  | some source =>
    by_cases hsame : source = current.regoContent
    · simp [Option.filter, hsame]
    · simp [Option.filter, hsame, eq_comm]

/-- **Every change numbers on, and lets the history grow by its content update.** -/
theorem Change.numbered {o : Operation} {r : o.Result} {h' : Holdings} (hs : s.Keeps h)
    (hc : Change refusal s t h o r h') (hh : h.IsNumbered updates)
    (hbound : ∀ id, updates id + o.newVersions s id < UInt32.size - 1) :
    h'.IsNumbered (fun id => updates id + o.newVersions s id) ∧ h.Grows h' (o.newVersions s) := by
  cases hc with
  | read reads =>
    cases o <;> first | contradiction | exact ⟨hh, Holdings.Grows.refl h⟩
  | @createPolicy draft id time valid fresh given shown =>
    refine ⟨numbered_createPolicy hs hh fresh draft time, fun v hv => List.mem_append_left _ hv,
      fun p hp => ⟨p, List.mem_append_left _ hp, rfl, rfl, fun hdeleted => hdeleted⟩⟩
  | @updatePolicy id revision p current next? time found live last next shown =>
    obtain ⟨hp, rfl⟩ := hs.holds.policy?_eq_some.1 found
    have hnumber := (Policy.version_of_found hs last).2
    have hasks := asksForContent_updatePolicy hs revision found last
    unfold Policy.Revision.IsNext at next
    split at next
    · -- the source stays, and with it the current version
      rename_i hsource
      subst next
      have hnone : Operation.newVersions s (.updatePolicy p.id revision) = fun _ => 0 := by
        funext policyId
        simp [Operation.newVersions, hasks, hsource]
      have hgrows := hs.holds.grows_replacePolicy 0 hp (q := p.revised revision none time) rfl rfl id
      rw [hnone]
      simp only [Option.toList_none, List.map_nil, List.append_nil]
      exact ⟨numbered_replacePolicy hs hh hp rfl rfl, hgrows.version,
        fun r hr => by simpa using hgrows.policy r hr⟩
    · -- the source is another one, and the next version holds it
      rename_i source hsource
      obtain ⟨-, time', -, hv⟩ := next
      subst hv
      have hone : Operation.newVersions s (.updatePolicy p.id revision) =
          fun policyId => if p.id = policyId then 1 else 0 := by
        funext policyId
        simp [Operation.newVersions, hasks, hsource]
      rw [hone] at hbound ⊢
      have hnext := numbered_updatePolicy hs hh hp
        (q := p.revised revision (some (revision.version p.id current source time')) time) rfl
        (by simpa using hbound p.id) (v := revision.version p.id current source time') rfl
        (hnumber ▸ rfl) rfl
      have hgrows := hs.holds.grows_replacePolicy 1 hp
        (q := p.revised revision (some (revision.version p.id current source time')) time) rfl
        hnext.1 id
      refine ⟨hnext.2, fun v hv => List.mem_append_left _ (hgrows.version v hv), fun r hr => ?_⟩
      obtain ⟨r', hr', hrest⟩ := hgrows.policy r hr
      exact ⟨r', List.mem_append_left _ hr', hrest⟩
  | @deletePolicy id p time found live shown =>
    obtain ⟨hp, -⟩ := hs.holds.policy?_eq_some.1 found
    have hnone : Operation.newVersions s (.deletePolicy id) = fun _ => 0 := rfl
    have hgrows := hs.holds.grows_replacePolicy 0 hp (q := p.tombstone time) rfl rfl (fun _ => rfl)
    rw [hnone]
    exact ⟨numbered_replacePolicy hs hh hp rfl rfl, hgrows.version,
      fun r hr => by simpa using hgrows.policy r hr⟩
  -- the other changes are on other shelves
  | _ => exact ⟨hh.of_policies_eq rfl, Holdings.Grows.of_policies_eq rfl⟩

end Changing

/-! ## Runs -/

section Runs

variable {svc : Service} {s t : State} {steps : List Step} {h : Holdings} {updates : String → Nat}

theorem countP_setsContent_cons (id : String) (x : Step) (steps : List Step) :
    (x :: steps).countP (Step.setsContent id) =
      [x].countP (Step.setsContent id) + steps.countP (Step.setsContent id) := by
  rw [← List.countP_append, List.singleton_append]

/-- One call numbers on and lets the history grow. -/
theorem numbered_call {x : Step} (hs : x.before.Keeps h) (hh : h.IsNumbered updates)
    (call : Ends surroundings (svc.perform x.caller x.operation) x.before x.outcome x.after)
    (hbound : ∀ id, updates id + [x].countP (Step.setsContent id) < UInt32.size - 1) :
    ∃ h', x.after.Keeps h' ∧
      h'.IsNumbered (fun id => updates id + [x].countP (Step.setsContent id)) ∧
      h.Grows h' fun id => [x].countP (Step.setsContent id) := by
  obtain ⟨h', hs', hamounts⟩ := perform_ends hs call
  refine ⟨h', hs', ?_⟩
  have hcount : ∀ id, [x].countP (Step.setsContent id) = if x.setsContent id = true then 1 else 0 :=
    fun id => by rw [List.countP_singleton]
  simp only [hcount] at hbound ⊢
  obtain ⟨caller, operation, outcome, before, after⟩ := x
  cases outcome with
  | ok r => exact Change.numbered hs hamounts hh hbound
  | error e =>
    -- a failure leaves the holdings as they were
    obtain ⟨rfl, -⟩ := hamounts
    exact ⟨hh, Holdings.Grows.refl _⟩

theorem Run.numbered (hrun : Run svc s steps t) (hs : s.Keeps h) (hh : h.IsNumbered updates)
    (hbound : ∀ id, updates id + steps.countP (Step.setsContent id) < UInt32.size - 1) :
    ∃ h', t.Keeps h' ∧ h'.IsNumbered (fun id => updates id + steps.countP (Step.setsContent id)) ∧
      h.Grows h' fun id => steps.countP (Step.setsContent id) := by
  -- call by call: the updates so far, which bound the current versions, grow along the run
  induction hrun generalizing h updates with
  | nil s => exact ⟨h, hs, hh, Holdings.Grows.refl h⟩
  | @cons x steps t call rest ih =>
    simp only [countP_setsContent_cons _ x steps, ← Nat.add_assoc] at hbound ⊢
    obtain ⟨h₁, hs₁, hh₁, hgrows₁⟩ := numbered_call hs hh call fun id =>
      Nat.lt_of_le_of_lt (Nat.le_add_right _ _) (hbound id)
    obtain ⟨h₂, hs₂, hh₂, hgrows₂⟩ := ih hs₁ hh₁ hbound
    exact ⟨h₂, hs₂, hh₂, hgrows₁.trans hgrows₂⟩

end Runs
end Service

/-- **The history of every policy is complete and only grows.**  In a state that is reached from
nothing, by calls of whatever kind and outcome, the versions of a policy are its numbers from 1 to the
current one, one document for each.  In any later state all of them are still there as they were, and
so is the policy, whose current version went up by the number of its content updates, and which is
deleted if it was. -/
theorem Policy.history_grows {svc : Service} {earlier later : List Step} {s t : State}
    (hearlier : Run svc .initial earlier s) (hlater : Run svc s later t)
    (hbound : ∀ id, (earlier ++ later).countP (Step.setsContent id) < UInt32.size - 1) :
    (s.memory.documents Shelf.policies.index).Pairwise (fun d e => d.id ≠ e.id) ∧
    (∀ d ∈ s.memory.documents Shelf.policies.index, d.relation? = some versionRelation →
      d ∈ t.memory.documents Shelf.policies.index) ∧
    ∀ d ∈ s.memory.documents Shelf.policies.index, d.relation? = some relation →
      ∃ p : Policy, d = p.document ∧
        (∃ versions : List PolicyVersion,
          (s.memory.documents Shelf.policies.index).filter (isVersionOf p.id) =
            versions.map versionDocument ∧
          versions.map (fun v => v.version.toNat) = List.range' 1 p.currentVersion.toNat ∧
          ∀ v ∈ versions, v.policyId = p.id ∧ v.id = versionId p.id v.version) ∧
        ∃ p' : Policy, p'.document ∈ t.memory.documents Shelf.policies.index ∧ p'.id = p.id ∧
          p'.currentVersion.toNat = p.currentVersion.toNat + later.countP (Step.setsContent p.id) ∧
          (p.deleted = true → p'.deleted = true) := by
  have hnumbered : Holdings.empty.IsNumbered fun _ => 0 := fun _ hp => absurd hp List.not_mem_nil
  simp only [List.countP_append] at hbound
  obtain ⟨h, hs, hh, -⟩ := hearlier.numbered State.keeps_initial hnumbered fun id => by
    have hid := hbound id
    omega
  obtain ⟨h', ht, -, hgrows⟩ := hlater.numbered hs hh fun id => by
    have hid := hbound id
    omega
  have hne : versionRelation ≠ relation := by decide
  refine ⟨?_, fun d hd hrelation => ?_, fun d hd hrelation => ?_⟩
  · exact List.pairwise_map.1 (hs.holds.ordered.nodup_ids Shelf.policies.index)
  · rw [hs.documents_policies] at hd
    obtain ⟨e, he, rfl⟩ := List.mem_map.1 hd
    cases e with
    | policy p => exact absurd (Option.some.inj hrelation) hne.symm
    | version v => exact ht.documents_policies ▸ List.mem_map.2 ⟨_, hgrows.version v he, rfl⟩
  · have hd' := hs.documents_policies ▸ hd
    obtain ⟨e, he, rfl⟩ := List.mem_map.1 hd'
    cases e with
    | version v => exact absurd (Option.some.inj hrelation) hne
    | policy p =>
      refine ⟨p, rfl, ⟨h.versionsOf p.id, hs.holds.filter_isVersionOf p.id, (hh p he).1, ?_⟩, ?_⟩
      · intro v hv
        obtain ⟨hv, hpolicy⟩ := mem_versionsOf.1 hv
        exact ⟨hpolicy, hpolicy ▸ hs.sound.versionId v hv⟩
      · obtain ⟨p', hp', hrest⟩ := hgrows.policy p he
        exact ⟨p', ht.documents_policies ▸ List.mem_map.2 ⟨_, hp', rfl⟩, hrest⟩

/-- A policy that was created and then given another source has one more version. -/
theorem Policy.history_grows_first : ∃ (x y : Step) (s t : State), Run lenient .initial [x] s ∧
    Run lenient s [y] t ∧ (∀ id, ([x] ++ [y]).countP (Step.setsContent id) < UInt32.size - 1) ∧
    ∃ p p' : Policy, p.document ∈ s.memory.documents Shelf.policies.index ∧
      p'.document ∈ t.memory.documents Shelf.policies.index ∧ p'.id = p.id ∧
      p'.currentVersion.toNat = p.currentVersion.toNat + [y].countP (Step.setsContent p.id) := by
  obtain ⟨p, s, hcreated, hs, -⟩ := First.exists_created
  obtain ⟨q, t, hupdated⟩ := First.exists_updated hs
  let x : Step := ⟨administrator, .createPolicy First.draft, .ok p, .initial, s⟩
  let y : Step := ⟨administrator, .updatePolicy First.id ⟨none, none, some First.source, none, none⟩,
    .ok q, s, t⟩
  have hx : Run lenient .initial [x] s := .cons (x := x) hcreated (.nil s)
  have hy : Run lenient s [y] t := .cons (x := y) hupdated (.nil t)
  have hbound : ∀ id, ([x] ++ [y]).countP (Step.setsContent id) < UInt32.size - 1 := fun id =>
    Nat.lt_of_le_of_lt List.countP_le_length (show 2 < UInt32.size - 1 by decide)
  have hstored : (First.draft.policy First.id First.time).document ∈
      s.memory.documents Shelf.policies.index := by
    rw [hs.documents_policies]
    exact List.mem_cons_self
  obtain ⟨-, -, hpolicies⟩ := history_grows hx hy hbound
  obtain ⟨r, hr, -, r', hr', hid, hcurrent, -⟩ := hpolicies _ hstored rfl
  exact ⟨x, y, s, t, hx, hy, hbound, r, r', hr ▸ hstored, hr', hid, hcurrent⟩

end Gatehouse
