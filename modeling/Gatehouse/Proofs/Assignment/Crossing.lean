import Gatehouse.Proofs.Policy.Overlap

/-!
# What is left of references when assigning and deleting overlap

A call that assigns a version first looks at the policy, and then stores the assignment on another shelf.
A call that deletes the policy first looks for the assignments, drops them, and then marks the policy.  The
store takes all of these requests, in whatever order they come.

1. **Crossing** (`Crossed`).  The one call had looked at the policy before the other marked it, and stored
   the assignment after the other had looked for assignments.
2. **What stays** whatever overlaps (`Holdings.Refers`): an assignment has the id that a policy gives it,
   and names a version of this policy.  Both are there.
3. **What may be lost** (`Referring`): that the policy is not deleted.  It is lost only if calls crossed.
4. **The crux** is what the calls still know when they write.  A deletion knows which of the assignments
   that are there now it had not found (`Reviewed`), and an assigning call knows that its policy was not
   marked before it looked (`Checked`).
-/

namespace Gatehouse

open Service Store

/-! ## What a turn does to assignments -/

namespace Exchange

/-- The assignments of a policy were looked for. -/
def SearchesFor (policyId : String) (x : Exchange effects) : Prop :=
  x.request = .store (.search Shelf.policyAssignments.index
    { query := (AssignmentScope.policy policyId).query, sort? := some PolicyAssignment.newestFirst })

/-- An assignment was stored under an id that was free. -/
def Assigns (id : String) (x : Exchange effects) : Prop :=
  ∃ d : Document, d.id = id ∧ x = ⟨.store (.write Shelf.policyAssignments.index (.create d)), .ok ()⟩

/-- Other requests assign nothing. -/
theorem not_assigns {x : Exchange effects}
    (hx : ∀ d, x.request ≠ .store (.write Shelf.policyAssignments.index (.create d))) (id : String) :
    ¬ x.Assigns id := by
  rintro ⟨d, -, rfl⟩
  exact hx d rfl

theorem not_assigns_error {q : Call} {e : StoreError} (id : String) :
    ¬ Assigns id ⟨.store q, .error e⟩ := by
  rintro ⟨d, -, heq⟩
  injection heq with hq hreply
  cases hq
  cases hreply

end Exchange

namespace Service

/-! ## References -/

/-- An assignment has the id that a policy gives it, and names a version of this policy. -/
structure Holdings.Refers (h : Holdings) (a : PolicyAssignment) (p : Policy) (v : PolicyVersion) :
    Prop where
  policy : .policy p ∈ h.policies
  version : .version v ∈ h.policies
  ofPolicy : v.policyId = p.id
  named : v.id = a.policyVersionId
  id : a.id = PolicyAssignment.idOf p.id a.policyGroup

variable {ι : Type}

/-- An assignment was made by a call that had looked at the policy before another call marked it, and after
that call had looked for the assignments of the policy. -/
def Crossed (policyId id : String) (turns : List (Turn ι)) : Prop :=
  ∃ (i k : ι) (look search assign mark : Exchange effects),
    look.ReadsPolicy policyId ∧ search.SearchesFor policyId ∧ assign.Assigns id ∧
    mark.buries policyId = true ∧ [⟨i, look⟩, ⟨k, mark⟩].Sublist turns ∧
    [⟨k, search⟩, ⟨i, assign⟩].Sublist turns

theorem Crossed.append {policyId id : String} {turns : List (Turn ι)} (h : Crossed policyId id turns)
    (more : List (Turn ι)) : Crossed policyId id (turns ++ more) := by
  obtain ⟨i, k, look, search, assign, mark, hlook, hsearch, hassign, hmark, hbefore, hafter⟩ := h
  exact ⟨i, k, look, search, assign, mark, hlook, hsearch, hassign, hmark,
    hbefore.trans (List.sublist_append_left _ _), hafter.trans (List.sublist_append_left _ _)⟩

/-- Who assigns has looked at the policy. -/
def AllLooked (turns : List (Turn ι)) : Prop :=
  ∀ t ∈ turns, ∀ id, t.exchange.Assigns id → ∃ (policyId group : String) (x : Exchange effects),
    id = PolicyAssignment.idOf policyId group ∧ '/' ∉ policyId.toList ∧ x.ReadsPolicy policyId ∧
    ⟨t.call, x⟩ ∈ turns

/-- Who marks a policy has looked for its assignments. -/
def AllSearched (turns : List (Turn ι)) : Prop :=
  ∀ t ∈ turns, ∀ id, t.exchange.buries id = true → ∃ x : Exchange effects,
    x.SearchesFor id ∧ ⟨t.call, x⟩ ∈ turns

/-- How assignments refer to policies when calls overlap. -/
structure Referring (c : Course ι) (h : Holdings) : Prop where
  keeps : c.state.Keeps h
  refers : ∀ a ∈ h.assignments, ∃ p v, h.Refers a p v ∧ (p.deleted = true → Crossed p.id a.id c.turns)
  looked : AllLooked c.turns
  searched : AllSearched c.turns

/-- From one course to another versions stay, policies are marked by turns alone, and assignments come by
turns alone. -/
structure Grown (c : Course ι) (more : List (Turn ι)) (d : Course ι) : Prop where
  turns : d.turns = c.turns ++ more
  log : c.state.log <+: d.state.log
  version : ∀ id v, c.state.memory.version? id = some v → d.state.memory.version? id = some v
  policy : ∀ id p, c.state.memory.policy? id = some p → ∃ p', d.state.memory.policy? id = some p' ∧
    (p'.deleted = true → p.deleted = true ∨ ∃ t ∈ more, t.exchange.buries id = true)
  assignment : ∀ a ∈ d.state.memory.assignments,
    (∃ b ∈ c.state.memory.assignments, b.id = a.id) ∨ ∃ t ∈ more, t.exchange.Assigns a.id

section References

variable {b c d : Course ι} {h h' : Holdings} {a : PolicyAssignment} {p q r : Policy} {v : PolicyVersion}
  {more more' : List (Turn ι)} {i : ι}

theorem Grown.refl (c : Course ι) : Grown c [] c where
  turns := (List.append_nil _).symm
  log := List.prefix_refl _
  version _ _ hv := hv
  policy _ p hp := ⟨p, hp, .inl⟩
  assignment a ha := .inl ⟨a, ha, rfl⟩

theorem Grown.trans (hb : Grown b more c) (hc : Grown c more' d) : Grown b (more ++ more') d where
  turns := by rw [hc.turns, hb.turns, List.append_assoc]
  log := hb.log.trans hc.log
  version id v hv := hc.version id v (hb.version id v hv)
  policy id p hp := by
    obtain ⟨p', hp', hmarked⟩ := hb.policy id p hp
    obtain ⟨p'', hp'', hmarked'⟩ := hc.policy id p' hp'
    refine ⟨p'', hp'', fun hdeleted => ?_⟩
    rcases hmarked' hdeleted with hdeleted | ⟨t, ht, hburies⟩
    · exact (hmarked hdeleted).imp_right fun ⟨t, ht, hburies⟩ => ⟨t, List.mem_append_left _ ht, hburies⟩
    · exact .inr ⟨t, List.mem_append_right _ ht, hburies⟩
  assignment a ha := by
    rcases hc.assignment a ha with ⟨a', ha', hid⟩ | ⟨t, ht, hassigns⟩
    · rcases hb.assignment a' ha' with ⟨a'', ha'', hid'⟩ | ⟨t, ht, hassigns⟩
      · exact .inl ⟨a'', ha'', hid'.trans hid⟩
      · exact .inr ⟨t, List.mem_append_left _ ht, hid ▸ hassigns⟩
    · exact .inr ⟨t, List.mem_append_right _ ht, hassigns⟩

namespace Holdings.Refers

/-- **The scope of a policy covers what refers to it.** -/
theorem covers_policy {s : State} (hs : s.Keeps h) (ha : h.Refers a p v) (hq : .policy q ∈ h.policies) :
    (AssignmentScope.policy q.id).covers a = true ↔ p.id = q.id := by
  have hslash : ∀ r, .policy r ∈ h.policies → '/' ∉ r.id.toList := fun r hr =>
    (hs.honest.uuid _ (hs.sound.policyId r hr)).slash_notMem
  rw [AssignmentScope.covers, ha.id, eq_comm (a := p.id)]
  exact PolicyAssignment.idStart_isPrefixOf_idOf (hslash q hq) (hslash p ha.policy) a.policyGroup

/-- An id refers to one policy. -/
theorem policy_eq {s : State} (hs : s.Keeps h) (ha : h.Refers a p v) {b : PolicyAssignment}
    {w : PolicyVersion} (hb : h.Refers b q w) (hid : a.id = b.id) : p = q := by
  have hcovers : (AssignmentScope.policy q.id).covers a = true := by
    rw [AssignmentScope.covers, hid]
    exact (hb.covers_policy hs hb.policy).2 rfl
  have hp := hs.holds.policy?_eq_some.2 ⟨ha.policy, (ha.covers_policy hs hb.policy).1 hcovers⟩
  have hq := hs.holds.policy?_eq_some.2 ⟨hb.policy, rfl⟩
  exact Option.some.inj (hp.symm.trans hq)

theorem mono (ha : h.Refers a p v) (hpolicies : h.policies ⊆ h'.policies) : h'.Refers a p v :=
  { ha with policy := hpolicies ha.policy, version := hpolicies ha.version }

end Holdings.Refers

theorem AllLooked.append {turns : List (Turn ι)} {x : Exchange effects} (h : AllLooked turns)
    (hx : ∀ id, x.Assigns id → ∃ (policyId group : String) (y : Exchange effects),
      id = PolicyAssignment.idOf policyId group ∧ '/' ∉ policyId.toList ∧ y.ReadsPolicy policyId ∧
      ⟨i, y⟩ ∈ turns) : AllLooked (turns ++ [⟨i, x⟩]) := by
  intro t ht id hassigns
  have hold : ∃ (policyId group : String) (y : Exchange effects),
      id = PolicyAssignment.idOf policyId group ∧ '/' ∉ policyId.toList ∧ y.ReadsPolicy policyId ∧
      ⟨t.call, y⟩ ∈ turns := by
    rcases List.mem_append.1 ht with ht | ht
    · exact h t ht id hassigns
    · obtain rfl := List.mem_singleton.1 ht
      exact hx id hassigns
  obtain ⟨policyId, group, y, hid, hslash, hy, hturn⟩ := hold
  exact ⟨policyId, group, y, hid, hslash, hy, List.mem_append_left _ hturn⟩

theorem AllSearched.append {turns : List (Turn ι)} {x : Exchange effects} (h : AllSearched turns)
    (hx : ∀ id, x.buries id = true → ∃ y : Exchange effects, y.SearchesFor id ∧ ⟨i, y⟩ ∈ turns) :
    AllSearched (turns ++ [⟨i, x⟩]) := by
  intro t ht id hburies
  have hold : ∃ y : Exchange effects, y.SearchesFor id ∧ ⟨t.call, y⟩ ∈ turns := by
    rcases List.mem_append.1 ht with ht | ht
    · exact h t ht id hburies
    · obtain rfl := List.mem_singleton.1 ht
      exact hx id hburies
  obtain ⟨y, hy, hturn⟩ := hold
  exact ⟨y, hy, List.mem_append_left _ hturn⟩

theorem AllSearched.append_of_policyWrites {turns : List (Turn ι)} {x : Exchange effects}
    (h : AllSearched turns) (hwrites : x.policyWrites = []) : AllSearched (turns ++ [⟨i, x⟩]) :=
  h.append fun id hburies => by
    rw [Exchange.buries_eq_false hwrites] at hburies
    contradiction

/-- While the policies stay as they are, only new assignments are news. -/
theorem grown_of_policies_eq {q : Request} {reply : q.Reply} (hc : c.state.Keeps h)
    (hd : (c.state.after q reply).Keeps h') (hpolicies : h'.policies = h.policies)
    (hassignments : ∀ a ∈ h'.assignments, (∃ b ∈ h.assignments, b.id = a.id) ∨
      Exchange.Assigns a.id ⟨q, reply⟩) : Grown c [⟨i, ⟨q, reply⟩⟩] (c.after i q reply) := by
  have hfiled : ∀ id, h'.filed? id = h.filed? id := fun id => by
    rw [Holdings.filed?, Holdings.filed?, hpolicies]
  refine ⟨rfl, List.prefix_append _ _, fun id v hv => ?_, fun id p hp => ⟨p, ?_, .inl⟩, fun a ha => ?_⟩
  · rw [Course.after_state, hd.version?_eq, Holdings.version?, hfiled]
    rwa [hc.version?_eq, Holdings.version?] at hv
  · rw [Course.after_state, hd.policy?_eq, Holdings.policy?, hfiled]
    rwa [hc.policy?_eq, Holdings.policy?] at hp
  · rw [Course.after_state, hd.assignments_eq] at ha
    rw [hc.assignments_eq]
    exact (hassignments a ha).imp_right fun hassigns => ⟨_, List.mem_singleton_self _, hassigns⟩

/-- One more turn that neither assigns nor marks. -/
theorem Referring.quiet {q : Request} {reply : q.Reply} (hc : Referring c h)
    (hkeeps : (c.state.after q reply).Keeps h') (hpolicies : h'.policies = h.policies)
    (hassignments : h'.assignments ⊆ h.assignments)
    (hassigns : ∀ id, ¬ Exchange.Assigns id ⟨q, reply⟩)
    (hwrites : Exchange.policyWrites ⟨q, reply⟩ = []) :
    Referring (c.after i q reply) h' ∧ Grown c [⟨i, ⟨q, reply⟩⟩] (c.after i q reply) := by
  refine ⟨⟨hkeeps, fun a ha => ?_, hc.looked.append fun id hassign => absurd hassign (hassigns id),
    hc.searched.append_of_policyWrites hwrites⟩, ?_⟩
  · obtain ⟨p, v, hrefers, hcrossed⟩ := hc.refers a (hassignments ha)
    exact ⟨p, v, hrefers.mono fun _ he => hpolicies ▸ he, fun hdeleted => (hcrossed hdeleted).append _⟩
  · exact grown_of_policies_eq hc.keeps hkeeps hpolicies fun a ha => .inl ⟨a, hassignments ha, rfl⟩

/-! ## Assigning -/

/-- What a call knows of a version and its policy that it has looked at. -/
structure Checked (i : ι) (versionId policyId : String) (c : Course ι) : Prop where
  version : ∃ v, c.state.memory.version? versionId = some v ∧ v.policyId = policyId
  policy : ∃ x : Exchange effects, x.ReadsPolicy policyId ∧ ⟨i, x⟩ ∈ c.turns ∧
    ∃ p, c.state.memory.policy? policyId = some p ∧ (p.deleted = true →
      ∃ (k : ι) (y : Exchange effects), y.buries policyId = true ∧ [⟨i, x⟩, ⟨k, y⟩].Sublist c.turns)

theorem Checked.mono {versionId policyId : String} (hc : Checked i versionId policyId c)
    (hd : Grown c more d) : Checked i versionId policyId d where
  version := by
    obtain ⟨v, hv, howner⟩ := hc.version
    exact ⟨v, hd.version _ v hv, howner⟩
  policy := by
    obtain ⟨x, hx, hturn, p, hp, hmarked⟩ := hc.policy
    obtain ⟨p', hp', hmarked'⟩ := hd.policy _ p hp
    rw [hd.turns]
    refine ⟨x, hx, List.mem_append_left _ hturn, p', hp', fun hdeleted => ?_⟩
    rcases hmarked' hdeleted with hdeleted | ⟨t, ht, hburies⟩
    · obtain ⟨k, y, hy, hturns⟩ := hmarked hdeleted
      exact ⟨k, y, hy, hturns.trans (List.sublist_append_left _ _)⟩
    · exact ⟨t.call, t.exchange, hburies, pair_sublist hturn ht⟩

/-- What was checked can be referred to. -/
theorem Checked.refers {versionId policyId : String} (hc : Checked i versionId policyId c)
    (hs : c.state.Keeps h) (hversion : a.policyVersionId = versionId)
    (hid : a.id = PolicyAssignment.idOf policyId a.policyGroup) :
    ∃ p v, h.Refers a p v ∧ p.id = policyId ∧ c.state.memory.policy? policyId = some p := by
  obtain ⟨v, hv, howner⟩ := hc.version
  obtain ⟨-, -, -, p, hp, -⟩ := hc.policy
  have hp' := hp
  rw [hs.version?_eq] at hv
  rw [hs.policy?_eq] at hp'
  obtain ⟨hvmem, hvid⟩ := hs.holds.version?_eq_some.1 hv
  obtain ⟨hpmem, hpid⟩ := hs.holds.policy?_eq_some.1 hp'
  exact ⟨p, v, ⟨hpmem, hvmem, howner.trans hpid.symm, hvid.trans hversion.symm, hpid ▸ hid⟩, hpid, hp⟩

/-- **An assignment that is stored** refers to a live policy, or calls have crossed. -/
theorem Referring.assign {policyId : String} (hc : Referring c h) (hchecked : Checked i a.policyVersionId policyId c)
    (hid : a.id = PolicyAssignment.idOf policyId a.policyGroup)
    (htimes : a.created ∈ c.state.times ∧ a.updated ∈ c.state.times)
    (hreply : (Memory.perform (.write Shelf.policyAssignments.index (.create a.document))
      c.state.memory).1 = .ok ()) :
    ∃ h', Referring (c.after i (.store (.write Shelf.policyAssignments.index (.create a.document)))
      (.ok ())) h' ∧ ∃ more, Grown c more
        (c.after i (.store (.write Shelf.policyAssignments.index (.create a.document))) (.ok ())) := by
  let q : Request := .store (.write Shelf.policyAssignments.index (.create a.document))
  let h' : Holdings := { h with assignments := h.assignments ++ [a] }
  have hlog : c.state.log <+: (c.state.after q (.ok ())).log := List.prefix_append _ _
  have hsound := hc.keeps.sound.mono hlog
  have hkeeps : (c.state.after q (.ok ())).Keeps h' := by
    refine ⟨hc.keeps.honest.after (q := q) hreply.symm, ?_, { hsound with assignmentTimes := ?_ }⟩
    · exact (hc.keeps.holds.perform_write h' (hc.keeps.holds.fits_of_perform hreply)
        (by simp [h', Write.change, Holdings.documents])
        (Holdings.documents_frame (.inr rfl) (.inr rfl) (.inl rfl) (.inr rfl))).2
    · intro b hb
      rcases List.mem_append.1 hb with hb | hb
      · exact hsound.assignmentTimes b hb
      · obtain rfl := List.mem_singleton.1 hb
        exact ⟨State.times_subset hlog htimes.1, State.times_subset hlog htimes.2⟩
  have hassigns : Exchange.Assigns a.id ⟨q, .ok ()⟩ := ⟨a.document, rfl, rfl⟩
  obtain ⟨p, v, hrefers, rfl, hp⟩ := hchecked.refers hc.keeps rfl hid
  obtain ⟨x, hx, hturn, p', hp', hmarked⟩ := hchecked.policy
  obtain rfl := Option.some.inj (hp.symm.trans hp')
  refine ⟨h', ⟨hkeeps, fun b hb => ?_, ?_, hc.searched.append_of_policyWrites rfl⟩,
    [⟨i, ⟨q, .ok ()⟩⟩], ?_⟩
  · rcases List.mem_append.1 hb with hb | hb
    · obtain ⟨p, v, hrefers, hcrossed⟩ := hc.refers b hb
      exact ⟨p, v, { hrefers with }, fun hdeleted => (hcrossed hdeleted).append _⟩
    · obtain rfl := List.mem_singleton.1 hb
      refine ⟨p, v, { hrefers with }, fun hdeleted => ?_⟩
      -- the policy was marked since the call looked at it, by a call that had searched before
      obtain ⟨k, y, hy, hturns⟩ := hmarked hdeleted
      obtain ⟨z, hz, hsearch⟩ := hc.searched ⟨k, y⟩ (hturns.subset (by simp)) _ hy
      exact ⟨i, k, x, z, _, y, hx, hz, hassigns, hy, hturns.trans (List.sublist_append_left _ _),
        pair_sublist hsearch (List.mem_singleton_self _)⟩
  · refine hc.looked.append fun id hassign => ?_
    obtain ⟨d, rfl, heq⟩ := hassign
    have hslash := (hc.keeps.honest.uuid _ (hc.keeps.sound.policyId p hrefers.policy)).slash_notMem
    cases heq
    exact ⟨p.id, a.policyGroup, x, hid, hslash, hx, hturn⟩
  · refine grown_of_policies_eq hc.keeps hkeeps rfl fun b hb => ?_
    rcases List.mem_append.1 hb with hb | hb
    · exact .inl ⟨b, hb, rfl⟩
    · obtain rfl := List.mem_singleton.1 hb
      exact .inr hassigns

/-- **An assignment that is moved** stays with its policy. -/
theorem Referring.move {policyId : String} (hc : Referring c h)
    (hchecked : Checked i a.policyVersionId policyId c)
    (hid : a.id = PolicyAssignment.idOf policyId a.policyGroup)
    (htimes : a.created ∈ c.state.times ∧ a.updated ∈ c.state.times)
    (hreply : (Memory.perform (.write Shelf.policyAssignments.index (.update a.document))
      c.state.memory).1 = .ok ()) :
    ∃ h', Referring (c.after i (.store (.write Shelf.policyAssignments.index (.update a.document)))
      (.ok ())) h' ∧ ∃ more, Grown c more
        (c.after i (.store (.write Shelf.policyAssignments.index (.update a.document))) (.ok ())) := by
  let q : Request := .store (.write Shelf.policyAssignments.index (.update a.document))
  let h' : Holdings := { h with assignments := h.replaceAssignment a }
  -- the store replaced a document of that id, so there was an assignment
  obtain ⟨d, hd, hdid⟩ := hc.keeps.holds.fits_of_perform hreply
  obtain ⟨b, hb, rfl⟩ := List.mem_map.1 hd
  have hbid : b.id = a.id := hdid
  obtain ⟨b', hb'⟩ : ∃ b', h.assignment? a.id = some b' :=
    Option.isSome_iff_exists.1 (List.find?_isSome.2 ⟨b, hb, decide_eq_true hbid⟩)
  have hlog : c.state.log <+: (c.state.after q (.ok ())).log := List.prefix_append _ _
  have hsound := hc.keeps.sound.mono hlog
  have hkeeps : (c.state.after q (.ok ())).Keeps h' := by
    refine ⟨hc.keeps.honest.after (q := q) hreply.symm, ?_, { hsound with assignmentTimes := ?_ }⟩
    · have hbid' := (Holdings.assignment?_eq_some_imp hb').2
      exact (PolicyAssignment.perform_update hc.keeps.holds hb' a hbid'.symm).2
    · intro x hx
      rcases Holdings.mem_replaceAssignment hx with rfl | hx
      · exact ⟨State.times_subset hlog htimes.1, State.times_subset hlog htimes.2⟩
      · exact hsound.assignmentTimes x hx
  have hassigns : ∀ id, ¬ Exchange.Assigns id ⟨q, .ok ()⟩ := Exchange.not_assigns nofun
  obtain ⟨p, v, hrefers, rfl, -⟩ := hchecked.refers hc.keeps rfl hid
  refine ⟨h', ⟨hkeeps, fun x hx => ?_, hc.looked.append fun id hassign => absurd hassign (hassigns id),
    hc.searched.append_of_policyWrites rfl⟩, [⟨i, ⟨q, .ok ()⟩⟩], ?_⟩
  · rcases Holdings.mem_replaceAssignment hx with rfl | hx
    · obtain ⟨r, w, hrefers', hcrossed⟩ := hc.refers b hb
      have hsame : p = r := hrefers.policy_eq hc.keeps hrefers' hbid.symm
      exact ⟨p, v, { hrefers with }, fun hdeleted => hbid ▸ hsame ▸ (hcrossed (hsame ▸ hdeleted)).append _⟩
    · obtain ⟨r, w, hrefers', hcrossed⟩ := hc.refers x hx
      exact ⟨r, w, { hrefers' with }, fun hdeleted => (hcrossed hdeleted).append _⟩
  · refine grown_of_policies_eq hc.keeps hkeeps rfl fun x hx => .inl ?_
    rcases Holdings.mem_replaceAssignment hx with rfl | hx
    · exact ⟨b, hb, hbid⟩
    · exact ⟨x, hx, rfl⟩

/-! ## Deleting -/

/-- A call has looked for the assignments of a policy, and what is there apart from some of them was made
since. -/
structure Reviewed (k : ι) (policyId : String) (ids : List String) (c : Course ι) : Prop where
  held : ∃ p, c.state.memory.policy? policyId = some p
  search : ∃ x : Exchange effects, x.SearchesFor policyId ∧ ⟨k, x⟩ ∈ c.turns ∧
    ∀ a ∈ c.state.memory.assignments, (AssignmentScope.policy policyId).covers a = true → a.id ∈ ids ∨
      ∃ (i : ι) (y : Exchange effects), y.Assigns a.id ∧ [⟨k, x⟩, ⟨i, y⟩].Sublist c.turns

theorem Reviewed.mono {policyId : String} {ids : List String} (hc : Reviewed i policyId ids c)
    (hd : Grown c more d) : Reviewed i policyId ids d where
  held := by
    obtain ⟨p, hp⟩ := hc.held
    obtain ⟨p', hp', -⟩ := hd.policy _ p hp
    exact ⟨p', hp'⟩
  search := by
    obtain ⟨x, hx, hturn, hknown⟩ := hc.search
    rw [hd.turns]
    refine ⟨x, hx, List.mem_append_left _ hturn, fun a ha hcovers => ?_⟩
    rcases hd.assignment a ha with ⟨b, hb, hid⟩ | ⟨t, ht, hassigns⟩
    · -- it was there before, under its id
      rw [AssignmentScope.covers, ← hid] at hcovers
      rw [← hid]
      rcases hknown b hb hcovers with hin | ⟨j, y, hy, hturns⟩
      · exact .inl hin
      · exact .inr ⟨j, y, hy, hturns.trans (List.sublist_append_left _ _)⟩
    · exact .inr ⟨t.call, t.exchange, hassigns, pair_sublist hturn ht⟩

/-- What was found and dropped is not there any more. -/
theorem Referring.drop {policyId : String} {as : List PolicyAssignment} (hc : Referring c h)
    (hreviewed : Reviewed i policyId (as.map PolicyAssignment.id) c)
    (hreply : (Memory.perform (.bulk Shelf.policyAssignments.index (as.map fun a => .delete a.id))
      c.state.memory).1 = .ok ()) :
    let q : Request := .store (.bulk Shelf.policyAssignments.index (as.map fun a => .delete a.id))
    Referring (c.after i q (.ok ()))
        { h with assignments := h.assignments.filter fun a => a.id ∉ as.map PolicyAssignment.id } ∧
      Grown c [⟨i, ⟨q, .ok ()⟩⟩] (c.after i q (.ok ())) ∧ Reviewed i policyId [] (c.after i q (.ok ())) := by
  intro q
  have hkeeps := hc.keeps.after_drop hreply
  obtain ⟨hc', hgrown⟩ := hc.quiet (i := i) hkeeps rfl (List.filter_subset_self _)
    (Exchange.not_assigns (by simp)) rfl
  obtain ⟨hheld, x, hx, hturn, hknown⟩ := hreviewed.mono hgrown
  refine ⟨hc', hgrown, hheld, x, hx, hturn, fun a ha hcovers => .inr ?_⟩
  refine (hknown a ha hcovers).resolve_left fun hin => ?_
  rw [Course.after_state, hkeeps.assignments_eq] at ha
  have hnot := (List.mem_filter.1 ha).2
  simp only [decide_eq_true_eq] at hnot
  exact hnot hin

/-- **What a deletion had not found** was made by a call that has crossed it. -/
theorem Referring.crossed (hc : Referring c h) (ha : a ∈ h.assignments) (hrefers : h.Refers a p v)
    (hreviewed : Reviewed i p.id [] c) {mark : Exchange effects} (hmark : mark.buries p.id = true) :
    Crossed p.id a.id (c.turns ++ [⟨i, mark⟩]) := by
  obtain ⟨z, hz, -, hknown⟩ := hreviewed.search
  have hcovers := (hrefers.covers_policy hc.keeps hrefers.policy).2 rfl
  obtain ⟨j, y, hy, hturns⟩ :=
    (hknown a (hc.keeps.assignments_eq ▸ ha) hcovers).resolve_left List.not_mem_nil
  -- the call that made it had looked at the policy that its id names
  obtain ⟨policyId, group, x, hidOf, hslash, hx, hlooked⟩ :=
    hc.looked ⟨j, y⟩ (hturns.subset (by simp)) _ hy
  have howner : p.id = policyId := by
    have hslash' := (hc.keeps.honest.uuid _ (hc.keeps.sound.policyId p hrefers.policy)).slash_notMem
    rw [AssignmentScope.covers, hidOf] at hcovers
    exact (PolicyAssignment.idStart_isPrefixOf_idOf hslash' hslash group).1 hcovers
  exact ⟨j, i, x, z, y, mark, howner ▸ hx, hz, hy, hmark,
    pair_sublist hlooked (List.mem_singleton_self _), hturns.trans (List.sublist_append_left _ _)⟩

/-- When a policy is marked, other policies and all versions are as they were. -/
theorem grown_of_mark {time : Instant} {q : Request} {reply : q.Reply} (hc : c.state.Keeps h)
    (hd : (c.state.after q reply).Keeps { h with policies := h.replacePolicy (p.tombstone time) })
    (hr : h.policy? p.id = some r) (hburies : Exchange.buries p.id ⟨q, reply⟩ = true) :
    Grown c [⟨i, ⟨q, reply⟩⟩] (c.after i q reply) := by
  obtain ⟨hmem, hid⟩ := hc.holds.policy?_eq_some.1 hr
  have hreplaced : (p.tombstone time).id = r.id := hid.symm
  refine ⟨rfl, List.prefix_append _ _, fun id v hv => ?_, fun id e he => ?_, fun a ha => .inl ?_⟩
  · rw [hc.version?_eq] at hv
    rw [Course.after_state, hd.version?_eq]
    obtain ⟨hvmem, hvid⟩ := hc.holds.version?_eq_some.1 hv
    exact hd.holds.version?_eq_some.2 ⟨hc.holds.version_mem_replacePolicy hmem hreplaced hvmem, hvid⟩
  · rw [hc.policy?_eq] at he
    rw [Course.after_state, hd.policy?_eq]
    obtain ⟨hemem, rfl⟩ := hc.holds.policy?_eq_some.1 he
    by_cases hsame : e.id = p.id
    · have hchanged : .policy (p.tombstone time) ∈ h.replacePolicy (p.tombstone time) :=
        List.mem_map.2 ⟨_, hmem, if_pos hid⟩
      rw [hsame]
      exact ⟨_, hd.holds.policy?_eq_some.2 ⟨hchanged, rfl⟩,
        fun _ => .inr ⟨_, List.mem_singleton_self _, hburies⟩⟩
    · have hkept : .policy e ∈ h.replacePolicy (p.tombstone time) :=
        List.mem_map.2 ⟨_, hemem, if_neg hsame⟩
      exact ⟨e, hd.holds.policy?_eq_some.2 ⟨hkept, rfl⟩, .inl⟩
  · rw [Course.after_state, hd.assignments_eq] at ha
    exact ⟨a, hc.assignments_eq ▸ ha, rfl⟩

/-- **When a policy is marked**, the assignments that refer to it were made by calls that have crossed. -/
theorem Referring.mark {time : Instant} (hc : Referring c h) (hreviewed : Reviewed i p.id [] c)
    (hbare : p.version? = none) (htimes : p.created ∈ c.state.times ∧ time ∈ c.state.times)
    {reply : Except StoreError Unit}
    (hreply : (Memory.perform (.write Shelf.policies.index (.update (p.tombstone time).document))
      c.state.memory).1 = reply) :
    ∃ h', Referring (c.after i
        (.store (.write Shelf.policies.index (.update (p.tombstone time).document))) reply) h' ∧
      ∃ more, Grown c more (c.after i
        (.store (.write Shelf.policies.index (.update (p.tombstone time).document))) reply) := by
  let q : Request := .store (.write Shelf.policies.index (.update (p.tombstone time).document))
  let h' : Holdings := { h with policies := h.replacePolicy (p.tombstone time) }
  obtain ⟨r, hr⟩ := hreviewed.held
  rw [hc.keeps.policy?_eq] at hr
  obtain ⟨hmem, hid⟩ := hc.keeps.holds.policy?_eq_some.1 hr
  have hreplaced : (p.tombstone time).id = r.id := hid.symm
  obtain ⟨hok, hkeeps⟩ := Policy.keeps_mark hc.keeps hr hbare htimes.1 htimes.2
  obtain rfl : reply = .ok () := hreply.symm.trans hok
  have hchanged : .policy (p.tombstone time) ∈ h'.policies := List.mem_map.2 ⟨_, hmem, if_pos hid⟩
  have hburies : Exchange.buries p.id ⟨q, .ok ()⟩ = true :=
    (Policy.exchange_mark rfl (hkeeps.read_policy hchanged) _ rfl).2.2
  refine ⟨h', ⟨hkeeps, fun a ha => ?_,
    hc.looked.append fun id hassign => absurd hassign (Exchange.not_assigns (by simp) id),
    hc.searched.append fun id hb => ?_⟩, [⟨i, ⟨q, .ok ()⟩⟩], grown_of_mark hc.keeps hkeeps hr hburies⟩
  · obtain ⟨e, v, hrefers, hcrossed⟩ := hc.refers a ha
    have hv := hc.keeps.holds.version_mem_replacePolicy hmem hreplaced hrefers.version
    by_cases hsame : e.id = p.id
    · have hrefers' : h'.Refers a (p.tombstone time) v := ⟨hchanged, hv, hrefers.ofPolicy.trans hsame,
        hrefers.named, hrefers.id.trans (by rw [hsame]; rfl)⟩
      refine ⟨_, v, hrefers', fun _ => ?_⟩
      have hcrossed := hc.crossed ha hrefers (i := i) (hsame ▸ hreviewed) (hsame ▸ hburies)
      rwa [hsame] at hcrossed
    · have he : .policy e ∈ h'.policies := List.mem_map.2 ⟨_, hrefers.policy, if_neg hsame⟩
      exact ⟨e, v, { hrefers with policy := he, version := hv },
        fun hdeleted => (hcrossed hdeleted).append _⟩
  · have hwrites : Exchange.policyWrites ⟨q, .ok ()⟩ = [.update (p.tombstone time).document] := rfl
    rw [Exchange.buries, hwrites] at hb
    simp only [List.any_cons, List.any_nil, Write.replacement?, Option.any_some, Bool.or_false,
      Bool.and_eq_true, decide_eq_true_eq] at hb
    obtain rfl : p.id = id := hb.1
    obtain ⟨z, hz, hsearch, -⟩ := hreviewed.search
    exact ⟨z, hz, hsearch⟩

/-- A store call that fails is one more turn. -/
theorem Referring.failed {q : Call} {x : StoreError} (hc : Referring c h)
    (hreply : (Memory.perform q c.state.memory).1 = .error x) :
    Referring (c.after i (.store q) (.error x)) h ∧
      Grown c [⟨i, ⟨.store q, .error x⟩⟩] (c.after i (.store q) (.error x)) := by
  have hwrites : Exchange.policyWrites ⟨.store q, .error x⟩ = [] := by
    cases q <;> rfl
  exact hc.quiet (hc.keeps.after_of_error hreply) rfl (List.Subset.refl _)
    Exchange.not_assigns_error hwrites

end References
end Service

end Gatehouse
