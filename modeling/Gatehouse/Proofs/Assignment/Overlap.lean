import Gatehouse.Proofs.Assignment.Crossing

/-!
# Assignments that are made while their policy is deleted

Calls that assign versions, move assignments and delete policies, any number of them, are made at the same
time in a state that was reached by calls one after the other.

1. **Each call withstands the others** (`withstands_create`, `withstands_update`,
   `withstands_deletePolicy`).
2. **So it is at every moment** (`overlapping_references`).
3. **Two calls** show that no more can be said: references that were checked before a deletion, and are
   stored after it, are those of a deleted policy.
-/

namespace Gatehouse

open Service Store

/-! ## The calls -/

namespace PolicyAssignment

section Calls

variable {ι : Type} {i : ι} {c d e : Course ι} {h : Holdings} {versionId group : String}

/-- What calls that assign and delete agree upon. -/
def terms : Terms ι where
  inv c := ∃ h, Referring c h
  grows c d := ∃ more, Grown c more d
  pending _ _ := True
  refl c := ⟨[], .refl c⟩
  trans := fun ⟨_, h⟩ ⟨_, h'⟩ => ⟨_, h.trans h'⟩
  stable _ h := h
  quiet := by
    intro i c q reply hq hreply ⟨h, hc⟩
    have hassigns : ∀ id, ¬ Exchange.Assigns id ⟨q, reply⟩ := Exchange.not_assigns fun d heq => by
      rw [show q = _ from heq] at hq
      contradiction
    obtain ⟨hc', hgrown⟩ := hc.quiet (i := i) (hc.keeps.after hreply hq) rfl (List.Subset.refl _) hassigns
      (Exchange.policyWrites_of_not_isWrite hq)
    exact ⟨⟨h, hc'⟩, ⟨_, hgrown⟩, fun h => h⟩

/-- A version that was found belongs to the policy that its id names. -/
theorem version_of_heard {found : Option PolicyVersion} {policyId : String} {number : UInt32}
    (hparts : Policy.ofVersionId? versionId = some (policyId, number)) (hsome : found.isSome = true)
    (he : Heard terms i (Policy.findVersion? versionId) found c d e) :
    ∃ v, e.state.memory.version? versionId = some v ∧ v.policyId = policyId := by
  obtain ⟨h, hd⟩ := he.before
  obtain ⟨hfound, hstate⟩ := (ends_findVersion? hd.keeps).1 he.ends
  obtain ⟨v, rfl⟩ := Option.isSome_iff_exists.1 hsome
  have hv : h.version? versionId = some v := (Except.ok.inj hfound).symm
  obtain ⟨hmem, hid⟩ := hd.keeps.holds.version?_eq_some.1 hv
  have howner := hd.keeps.ofVersionId?_eq hmem
  rw [hid, hparts, Option.some_inj, Prod.mk.injEq] at howner
  refine ⟨v, ?_, howner.1.symm⟩
  rw [hstate, State.got_memory, hd.keeps.version?_eq, hv]

/-- A policy that was read is there. -/
theorem policy_of_heard {p : Policy} {policyId : String}
    (he : Heard terms i (Policy.require policyId) p c d e) :
    e.state.memory.policy? policyId = some p ∧
      ∃ x : Exchange effects, x.ReadsPolicy policyId ∧ ⟨i, x⟩ ∈ e.turns := by
  obtain ⟨h, hd⟩ := he.before
  obtain ⟨hfound, hstate⟩ := (ends_require_ok hd.keeps).1 he.ends
  have hturn := he.mem_turns hstate
  refine ⟨?_, _, ?_, hturn⟩
  · rw [hstate, State.got_memory, hd.keeps.policy?_eq, hfound]
  · rfl

/-- **References that were checked** may be relied on. -/
theorem gathers_checkReferences (hI : (terms : Terms ι).inv c) :
    Gathers terms i (fun policyId d => Checked i versionId policyId d) (checkReferences versionId group) c := by
  refine gathers_ensure_bind trivial fun _ => ?_
  cases hparts : Policy.ofVersionId? versionId with
  | none => exact gathers_throw trivial
  | some parts =>
    obtain ⟨policyId, number⟩ := parts
    refine (Policy.reads_findVersion? _).gathers_bind (Policy.asksOnce_findVersion? _) hI trivial
      fun found d₁ e₁ he₁ => ?_
    refine gathers_ensure_bind trivial fun hsome => ?_
    obtain ⟨v, hv, howner⟩ := version_of_heard hparts hsome he₁
    refine (Policy.reads_require _).gathers_bind (Policy.asksOnce_require _) he₁.inv trivial
      fun p d₂ e₂ he₂ => ?_
    refine gathers_ensure_bind trivial fun hlive => ?_
    obtain ⟨hpolicy, x, hx, hturn⟩ := policy_of_heard he₂
    refine (PolicyGroup.reads_getActive _).gathers_bind (PolicyGroup.asksOnce_getActive _) he₂.inv trivial
      fun g d₃ e₃ he₃ => gathers_pure he₃.inv trivial ?_
    -- what was found first is still there when the rest was found
    obtain ⟨_, hgrown₂⟩ := he₂.grows_trans
    obtain ⟨_, hgrown₃⟩ := he₃.grows_trans
    have hchecked : Checked i versionId policyId e₂ := by
      refine ⟨⟨v, hgrown₂.version _ v hv, howner⟩, x, hx, hturn, p, hpolicy, fun hdeleted => ?_⟩
      rw [hdeleted] at hlive
      contradiction
    exact hchecked.mono hgrown₃

/-- **Assigning withstands the others.** -/
theorem withstands_create (hI : (terms : Terms ι).inv c) :
    Withstands terms i (fun _ _ => True) (create versionId group) c := by
  refine (gathers_checkReferences hI).withstands_bind (fun _ _ _ => trivial) fun policyId d hd hchecked => ?_
  refine reads_now.withstands_bind asksOnce_now hd.inv trivial (fun _ _ _ => trivial) fun time d₁ e₁ he₁ => ?_
  obtain ⟨_, hgrown₁⟩ := he₁.grows_trans
  have hshown := mem_times_of_now he₁.ends
  refine withstands_attempt_bind trivial fun f _ ⟨_, hgrown⟩ ⟨h, hc⟩ reply hreply => ?_
  cases reply with
  | error x =>
    obtain ⟨hc', hgrown'⟩ := hc.failed (i := i) hreply
    refine ⟨⟨h, hc'⟩, ⟨_, hgrown'⟩, ?_⟩
    cases x <;> trivial
  | ok _ =>
    have hshown' := State.times_subset hgrown.log hshown
    obtain ⟨h', hc', hgrown'⟩ := hc.assign ((hchecked.mono hgrown₁).mono hgrown) rfl ⟨hshown', hshown'⟩ hreply
    exact ⟨⟨h', hc'⟩, hgrown', trivial⟩

/-- What was read of an assignment names its policy. -/
theorem owner_of_heard {id : String} {a : PolicyAssignment} (he : Heard terms i (get id) a c d e) :
    a.id = idOf (((Policy.ofVersionId? a.policyVersionId).map Prod.fst).getD "") a.policyGroup ∧
      a.created ∈ e.state.times := by
  obtain ⟨h, hd⟩ := he.before
  obtain ⟨-, hfound, hstate⟩ := (ends_assignment_ok hd.keeps).1 he.ends
  obtain ⟨hmem, -⟩ := Holdings.assignment?_eq_some_imp hfound
  obtain ⟨p, v, hrefers, -⟩ := hd.refers a hmem
  have howner := hd.keeps.ofVersionId?_eq hrefers.version
  rw [hrefers.named, hrefers.ofPolicy] at howner
  obtain ⟨_, hgrown⟩ := he.grown
  rw [howner]
  exact ⟨hrefers.id, State.times_subset hgrown.log (hd.keeps.sound.assignmentTimes a hmem).1⟩

/-- **Moving an assignment withstands the others.** -/
theorem withstands_update {id : String} (hI : (terms : Terms ι).inv c) :
    Withstands terms i (fun _ _ => True) (update id versionId) c := by
  refine (reads_get id).withstands_bind (asksOnce_get id) hI trivial (fun _ _ _ => trivial)
    fun a d e he => ?_
  obtain ⟨hid, hcreated⟩ := owner_of_heard he
  refine (gathers_checkReferences he.inv).withstands_bind (fun _ _ _ => trivial) fun policyId d₁ hd₁ hchecked => ?_
  obtain ⟨_, hgrown₁⟩ := hd₁.grows
  refine withstands_ensure_bind (fun _ => trivial) fun hsame => ?_
  refine reads_now.withstands_bind asksOnce_now hd₁.inv trivial (fun _ _ _ => trivial) fun time d₂ e₂ he₂ => ?_
  obtain ⟨_, hgrown₂⟩ := he₂.grows_trans
  have hshown := mem_times_of_now he₂.ends
  refine withstands_call_bind trivial fun f _ ⟨_, hgrown⟩ ⟨h, hc⟩ reply hreply => ?_
  cases reply with
  | error x =>
    obtain ⟨hc', hgrown'⟩ := hc.failed (i := i) hreply
    exact ⟨⟨h, hc'⟩, ⟨_, hgrown'⟩, trivial⟩
  | ok _ =>
    have hcreated' := State.times_subset ((hgrown₁.log.trans hgrown₂.log).trans hgrown.log) hcreated
    have howner : policyId = ((Policy.ofVersionId? a.policyVersionId).map Prod.fst).getD "" := by
      simpa using hsame
    obtain ⟨h', hc', hgrown'⟩ := hc.move
      (a := { a with policyVersionId := versionId, updated := time })
      ((hchecked.mono hgrown₂).mono hgrown) (hid.trans (by rw [howner]))
      ⟨hcreated', State.times_subset hgrown.log hshown⟩ hreply
    exact ⟨⟨h', hc'⟩, hgrown', trivial⟩

/-- What a deletion knows once it has looked for the assignments. -/
theorem reviewed_of_heard {as : List PolicyAssignment} {policyId : String} {p : Policy}
    (hheld : c.state.memory.policy? policyId = some p)
    (he : Heard terms i (AssignmentScope.policy policyId).assignments as c d e) :
    Reviewed i policyId (as.map PolicyAssignment.id) e := by
  obtain ⟨_, hgrown⟩ := he.grows_trans
  obtain ⟨h, hd⟩ := he.before
  obtain ⟨_, has, hperm, -, hstate⟩ := ends_assignments hd.keeps he.ends
  obtain rfl := Except.ok.inj has
  obtain ⟨p', hp', -⟩ := hgrown.policy _ p hheld
  have hturn := he.mem_turns hstate
  refine ⟨⟨p', hp'⟩, _, ?_, hturn, fun a ha hcovers => .inl ?_⟩
  · rfl
  · have hmem : a ∈ h.assignments := by
      rw [hstate] at ha
      exact hd.keeps.assignments_eq ▸ ha
    exact List.mem_map.2 ⟨a, hperm.mem_iff.2 (List.mem_filter.2 ⟨hmem, hcovers⟩), rfl⟩

/-- **Marking a policy withstands the others**, once its assignments are dropped. -/
theorem withstands_mark {p : Policy} (hI : (terms : Terms ι).inv c) (hreviewed : Reviewed i p.id [] c)
    (hbare : p.version? = none) (hcreated : p.created ∈ c.state.times) :
    Withstands terms i (fun _ _ => True) (Policy.mark p) c := by
  refine reads_now.withstands_bind asksOnce_now hI trivial (fun _ _ _ => trivial) fun time d e he => ?_
  obtain ⟨_, hgrown₁⟩ := he.grows_trans
  have hshown := mem_times_of_now he.ends
  refine withstands_call_bind trivial fun f _ ⟨_, hgrown⟩ ⟨h, hc⟩ reply hreply => ?_
  have hcreated' := State.times_subset (hgrown₁.log.trans hgrown.log) hcreated
  obtain ⟨h', hc', hgrown'⟩ := hc.mark ((hreviewed.mono hgrown₁).mono hgrown) hbare
    ⟨hcreated', State.times_subset hgrown.log hshown⟩ hreply
  refine ⟨⟨h', hc'⟩, hgrown', ?_⟩
  cases reply <;> trivial

/-- **A deletion withstands the others.** -/
theorem withstands_deletePolicy {id : String} (hI : (terms : Terms ι).inv c) :
    Withstands terms i (fun _ _ => True) (Policy.delete id) c := by
  refine (Policy.reads_require _).withstands_bind (Policy.asksOnce_require _) hI trivial
    (fun _ _ _ => trivial) fun p d e he => ?_
  obtain ⟨hheld, -⟩ := policy_of_heard he
  obtain ⟨h, hc⟩ := he.inv
  obtain ⟨hmem, rfl⟩ := hc.keeps.holds.policy?_eq_some.1 (hc.keeps.policy?_eq ▸ hheld)
  have hbare := hc.keeps.sound.bare p hmem
  have hcreated := (hc.keeps.sound.policyTimes p hmem).1
  refine withstands_ensure_bind (fun _ => trivial) fun _ => ?_
  refine (AssignmentScope.reads_assignments _).withstands_bind (AssignmentScope.asksOnce_assignments _)
    he.inv trivial (fun _ _ _ => trivial) fun as d₁ e₁ he₁ => ?_
  obtain ⟨_, hgrown₁⟩ := he₁.grows_trans
  have hreviewed := reviewed_of_heard hheld he₁
  have hcreated₁ := State.times_subset hgrown₁.log hcreated
  cases as with
  | nil => exact withstands_mark he₁.inv hreviewed hbare hcreated₁
  | cons a as =>
    refine withstands_call_bind trivial fun f _ ⟨_, hgrown⟩ ⟨h, hc⟩ reply hreply => ?_
    cases reply with
    | error x =>
      obtain ⟨hc', hgrown'⟩ := hc.failed (i := i) hreply
      exact ⟨⟨h, hc'⟩, ⟨_, hgrown'⟩, trivial⟩
    | ok _ =>
      obtain ⟨hc', hgrown', hreviewed'⟩ := hc.drop (hreviewed.mono hgrown) hreply
      exact ⟨⟨_, hc'⟩, ⟨_, hgrown'⟩, withstands_mark ⟨_, hc'⟩ hreviewed' hbare
        (State.times_subset (hgrown.log.trans hgrown'.log) hcreated₁)⟩

/-- **Every call that assigns or deletes withstands the others.** -/
theorem withstands_action {refusal : Rego.Refusal} {o : Operation} (hI : (terms : Terms ι).inv c)
    (ho : (∃ versionId group, o = .createPolicyAssignment versionId group) ∨
      (∃ id versionId, o = .updatePolicyAssignment id versionId) ∨ ∃ id, o = .deletePolicy id) :
    Withstands terms i (fun _ _ => True) (o.action refusal) c := by
  rcases ho with ⟨versionId, group, rfl⟩ | ⟨id, versionId, rfl⟩ | ⟨id, rfl⟩
  · exact withstands_create hI
  · exact withstands_update hI
  · exact withstands_deletePolicy hI

end Calls

end PolicyAssignment

/-! ## A reference that was checked too early -/

namespace Service.First

/-- Two calls for the first policy: one assigns it, and one deletes it. -/
def contenders : Fin 2 → Invocation
  | 0 => ⟨administrator, .createPolicyAssignment (Policy.versionId id 1) "production"⟩
  | 1 => ⟨administrator, .deletePolicy id⟩

theorem contenders_assign_or_delete (i : Fin 2) :
    (∃ versionId group, (contenders i).operation = .createPolicyAssignment versionId group) ∨
    (∃ id versionId, (contenders i).operation = .updatePolicyAssignment id versionId) ∨
    ∃ id, (contenders i).operation = .deletePolicy id :=
  match i with
  | 0 => .inl ⟨_, _, rfl⟩
  | 1 => .inr (.inr ⟨_, rfl⟩)

/-- The first call checks the references, the second does all of its own, and then the first assigns. -/
theorem exists_crossing : ∃ (steps : List Step) (s : State) (pool : Pool contenders) (c : Course (Fin 2)),
    Run lenient .initial steps s ∧ Concurrently lenient contenders s pool c ∧
    (∀ i, ∃ r, pool i = .done (.ok r)) ∧ c.state.memory.assignments = [assignment] ∧
    (∃ v, c.state.memory.version? assignment.policyVersionId = some v ∧ v.policyId = id) ∧
    ∃ p, c.state.memory.policy? id = some p ∧ p.deleted = true := by
  obtain ⟨steps, s, hrun, hs, -, -⟩ := exists_grouped
  let pool₀ : Pool contenders := fun i => (contenders i).program lenient
  -- the first call checks what it is to refer to
  obtain ⟨t₁, hcheck, -, -⟩ := PolicyAssignment.checkReferences_succeeds hs assignable (by decide)
  have hs₁ := (PolicyAssignment.reads_checkReferences _ _).keeps hcheck hs
  obtain ⟨c₁, hc₁, hproceeds₁, -⟩ := exists_proceeds pool₀ 0 (c := .start s)
    (f := ExceptT.bindCont (PolicyAssignment.assign (Policy.versionId id 1) "production"))
    (Invocation.program_administrator _) hcheck
  let pool₁ : Pool contenders := Function.update pool₀ 0
    (PolicyAssignment.assign (Policy.versionId id 1) "production" id).run
  -- the second call deletes the policy, which has no assignments yet
  have found : Holdings.policy? { holdings with assignments := [] } id = some (draft.policy id time) := by
    decide
  obtain ⟨t₂, hdelete⟩ := Policy.delete_succeeds hs₁ found rfl time_isKept
  obtain ⟨time', hs₂⟩ := Policy.delete_marked hs₁ found hdelete
  obtain ⟨c₂, hc₂, hproceeds₂, -⟩ := exists_proceeds_done pool₁ 1 (c := c₁)
    (Invocation.program_administrator _) (hc₁ ▸ hdelete)
  let pool₂ : Pool contenders := Function.update pool₁ 1 (.done (.ok ()))
  -- and the first call assigns its version
  obtain ⟨t₃, hassign, hs₃, -⟩ := PolicyAssignment.assign_succeeds hs₂ (Policy.versionId id 1)
    (show Holdings.assignment? _ (PolicyAssignment.idOf id "production") = none from rfl) time_isKept
  obtain ⟨c₃, hc₃, hproceeds₃, -⟩ := exists_proceeds_done pool₂ 0 (c := c₂)
    (show pool₂ 0 = ExceptT.run _ from rfl) (hc₂ ▸ hassign)
  refine ⟨steps, s, _, c₃, hrun, (hproceeds₁.append hproceeds₂).append hproceeds₃, ?_, ?_, ?_, ?_⟩
  · intro i
    match i with
    | 0 => exact ⟨_, rfl⟩
    | 1 => exact ⟨_, rfl⟩
  · rw [hc₃, hs₃.assignments_eq]
    rfl
  · rw [hc₃, hs₃.version?_eq]
    exact ⟨_, rfl, rfl⟩
  · rw [hc₃, hs₃.policy?_eq]
    exact ⟨_, rfl, rfl⟩

end Service.First

/-! ## At every moment -/

namespace PolicyAssignment

section Overlap

variable {ι : Type} {svc : Service} {s : State}

/-- In a state that is reached by calls one after the other no calls have crossed. -/
theorem exists_referring_start {earlier : List Step} (hearlier : Run svc .initial earlier s) :
    ∃ h, Referring (.start s : Course ι) h := by
  obtain ⟨h, hs, hh⟩ := hearlier.linked State.keeps_initial Holdings.isLinked_empty
  refine ⟨h, hs, fun a ha => ?_, fun t ht => absurd ht List.not_mem_nil,
    fun t ht => absurd ht List.not_mem_nil⟩
  obtain ⟨p, v, hb⟩ := hh.assigned a ha
  refine ⟨p, v, { hb with }, fun hdeleted => ?_⟩
  rw [hb.live] at hdeleted
  contradiction

/-- **What assignments refer to when calls overlap.**  Calls one after the other have led to a state, and
then any number of calls assign versions, move assignments and delete policies at the same time.  At every
moment, and so when all of them have returned, every stored assignment has the id of its owner and its
group, and the version that it names is a stored version of the owner.  The owner is not deleted, unless a
call had looked at it before a deletion marked it, and stored the assignment after that deletion had looked
for the assignments of the owner. -/
theorem overlapping_references [DecidableEq ι] {earlier : List Step} {calls : ι → Invocation}
    {pool : Pool calls} {c : Course ι} (hearlier : Run svc .initial earlier s)
    (hcalls : ∀ i,
      (∃ versionId group, (calls i).operation = .createPolicyAssignment versionId group) ∨
      (∃ id versionId, (calls i).operation = .updatePolicyAssignment id versionId) ∨
      ∃ id, (calls i).operation = .deletePolicy id)
    (hrun : Concurrently svc calls s pool c) :
    c.state.memory.documents Shelf.policyAssignments.index = c.state.memory.assignments.map document ∧
    ∀ a ∈ c.state.memory.assignments, ∃ (p : Policy) (v : PolicyVersion),
      a.id = idOf p.id a.policyGroup ∧ a.owner? = some p.id ∧
      c.state.memory.version? a.policyVersionId = some v ∧ v.policyId = p.id ∧
      c.state.memory.policy? p.id = some p ∧ (p.deleted = true → Crossed p.id a.id c.turns) := by
  have hwithstands : ∀ i, Withstands terms i (fun _ _ => True)
      (svc.perform (calls i).caller (calls i).operation) (.start s) := by
    intro i
    refine withstands_perform (fun _ => trivial) ?_
    have hI : terms.inv (.start s : Course ι) := exists_referring_start hearlier
    exact withstands_action hI (hcalls i)
  obtain ⟨⟨h, hc⟩, -, -⟩ := hrun.withstands (fun _ _ _ _ _ _ _ _ => trivial)
    (exists_referring_start hearlier) hwithstands
  rw [hc.keeps.assignments_eq]
  refine ⟨hc.keeps.documents_assignments, fun a ha => ?_⟩
  obtain ⟨p, v, hrefers, hcrossed⟩ := hc.refers a ha
  have howner := hc.keeps.ofVersionId?_eq hrefers.version
  rw [hrefers.named, hrefers.ofPolicy] at howner
  refine ⟨p, v, hrefers.id, by rw [owner?, howner]; rfl, ?_, hrefers.ofPolicy, ?_, hcrossed⟩
  · exact hc.keeps.version?_eq.trans (hc.keeps.holds.version?_eq_some.2 ⟨hrefers.version, hrefers.named⟩)
  · exact hc.keeps.policy?_eq.trans (hc.keeps.holds.policy?_eq_some.2 ⟨hrefers.policy, rfl⟩)

end Overlap

/-- A policy that is assigned and deleted at the same time. -/
theorem overlapping_references_crossed : ∃ (steps : List Step) (s : State) (pool : Pool First.contenders)
    (c : Course (Fin 2)), Run lenient .initial steps s ∧ Concurrently lenient First.contenders s pool c ∧
    c.state.memory.assignments = [First.assignment] ∧
    Crossed First.id First.assignment.id c.turns := by
  obtain ⟨steps, s, pool, c, hrun, hconcurrently, -, hassigned, -, q, hq, hdeleted⟩ :=
    First.exists_crossing
  obtain ⟨-, hreferences⟩ := overlapping_references hrun First.contenders_assign_or_delete hconcurrently
  obtain ⟨p, v, -, howner, -, -, hp, hcrossed⟩ :=
    hreferences First.assignment (hassigned ▸ List.mem_singleton_self _)
  -- its owner is the policy that was deleted
  have hid : First.assignment.owner? = some First.id := by decide
  have hpid : p.id = First.id := Option.some.inj (howner.symm.trans hid)
  rw [hpid] at hp hcrossed
  obtain rfl := Option.some.inj (hp.symm.trans hq)
  exact ⟨steps, s, pool, c, hrun, hconcurrently, hassigned, hcrossed hdeleted⟩

/-- **So an assignment may be left of a policy that is deleted**, although both calls have returned. -/
theorem not_forall_overlapping_live : ¬ ∀ (svc : Service) (earlier : List Step) (s : State)
    (calls : Fin 2 → Invocation) (pool : Pool calls) (c : Course (Fin 2)), Run svc .initial earlier s →
    (∀ i, (∃ versionId group, (calls i).operation = .createPolicyAssignment versionId group) ∨
      (∃ id versionId, (calls i).operation = .updatePolicyAssignment id versionId) ∨
      ∃ id, (calls i).operation = .deletePolicy id) →
    Concurrently svc calls s pool c → (∀ i, ∃ r, pool i = .done r) →
    ∀ a ∈ c.state.memory.assignments, ∀ v p, c.state.memory.version? a.policyVersionId = some v →
      c.state.memory.policy? v.policyId = some p → p.deleted = false := by
  intro hall
  obtain ⟨steps, s, pool, c, hrun, hconcurrently, hdone, hassigned, ⟨v, hv, howner⟩, p, hp, hdeleted⟩ :=
    First.exists_crossing
  have hlive := hall lenient steps s First.contenders pool c hrun First.contenders_assign_or_delete
    hconcurrently (fun i => ⟨_, (hdone i).choose_spec⟩) First.assignment
    (hassigned ▸ List.mem_singleton_self _) v p hv (howner.symm ▸ hp)
  rw [hdeleted] at hlive
  contradiction

end PolicyAssignment
end Gatehouse
