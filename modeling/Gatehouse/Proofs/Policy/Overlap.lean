import Gatehouse.Proofs.Policy.Overwriting
import Gatehouse.Proofs.Service.Links

/-!
# Changes of a policy that overlap

Calls that revise and delete one policy, any number of them, are made at the same time in a state that was
reached by calls one after the other.

1. **Each call withstands the others** (`withstands_update`, `withstands_delete`): what it does leaves of
   the policy what may be left of it.
2. **So it is at every moment** (`overlapping_revisions`).
3. **Three calls** show that no more can be said: a name that was asked for before, and is written after
   another call's version and a third call's deletion, takes both of them back.
-/

namespace Gatehouse

open Service Store

namespace Policy

variable {ι : Type}

/-! ## The calls -/

section Calls

variable {p₀ p : Policy} {i : ι} {c d e : Course ι} {h : Holdings} {refusal : Rego.Refusal}

/-- What calls that revise a policy agree upon: what becomes of it, and that versions stay. -/
def terms (p₀ : Policy) : Terms ι where
  inv c := ∃ h p, Revised p₀ c h p
  grows c d := (c.state.memory.documents Shelf.policies.index).filter (isVersionOf p₀.id) <+:
    (d.state.memory.documents Shelf.policies.index).filter (isVersionOf p₀.id)
  pending _ _ := True
  refl _ := List.prefix_refl _
  trans h h' := h.trans h'
  stable _ h := h
  quiet := by
    intro i c q reply hq hreply ⟨h, p, hp⟩
    refine ⟨⟨h, p, hp.quiet (hp.keeps.after hreply hq) rfl (Exchange.policyWrites_of_not_isWrite hq)⟩,
      ?_, fun h => h⟩
    have hmemory : (c.after i q reply).state.memory = c.state.memory := State.after_memory_of_not_isWrite hq reply
    exact ⟨[], by rw [hmemory, List.append_nil]⟩

/-- What a call that has just read the policy may believe. -/
theorem Recalls.of_heard (he : Heard (terms p₀) i (require p₀.id) p c d e) : Recalls p₀ i p e := by
  obtain ⟨h, p', hp⟩ := he.before
  obtain ⟨hfound, hstate⟩ := (ends_require_ok hp.keeps).1 he.ends
  obtain rfl : p' = p := Option.some.inj (hp.found.symm.trans hfound)
  let q : Request := .store (.get Shelf.policies.index p₀.id)
  let reply : q.Reply := .ok (d.state.memory.get? Shelf.policies.index p₀.id)
  -- the reading is one more turn, which changes nothing
  have hafter : e = d.after i q reply := he.eq_after hstate
  have hkeeps : (d.state.after q reply).Keeps h := hp.keeps.after (q := q) rfl rfl
  have hp' : Revised p₀ e h p' := hafter ▸ hp.quiet (i := i) hkeeps rfl rfl
  obtain ⟨hmem, hid⟩ := hp'.keeps.holds.policy?_eq_some.1 hp'.found
  refine ⟨hid, hp'.keeps.sound.bare _ hmem, (hp'.keeps.sound.policyTimes _ hmem).1, ⟨q, reply⟩, rfl, ?_,
    fun hroom => ⟨hp'.current hroom, (hp'.newest hroom).imp_right .inl⟩, fun hlive => ?_⟩
  · rw [hafter]
    simp
  · by_cases hburied : IsBuried p₀ e.turns
    · rcases hp'.buried hburied with hdead | hrevived
      · rw [hlive] at hdead
        contradiction
      · exact .inr (.inl hrevived)
    · exact .inl hburied

/-- What is held stays sound when a policy is revised. -/
theorem keeps_revise {s t : State} (hs : s.Keeps h) (changed : Policy) (next? : Option PolicyVersion)
    (hp : .policy p ∈ h.policies) (hid : changed.id = p.id) (hbare : changed.version? = none)
    (htimes : changed.created ∈ t.times ∧ changed.updated ∈ t.times)
    (hnext : ∀ v, next? = some v →
      v.id = versionId v.policyId v.version ∧ v.policyId = p.id ∧ v.created ∈ t.times)
    (hlog : s.log <+: t.log) (honest : t.IsHonest)
    (hholds : Holds t.memory
      { h with policies := h.replacePolicy changed ++ next?.toList.map PolicyEntry.version }) :
    t.Keeps { h with policies := h.replacePolicy changed ++ next?.toList.map PolicyEntry.version } := by
  refine ⟨honest, hholds, ?_⟩
  have hsound := (hs.sound.mono hlog).replacePolicy hp hid hbare htimes.1 htimes.2
  cases next? with
  | none => simpa using hsound
  | some v =>
    obtain ⟨hvid, howner, hcreated⟩ := hnext v rfl
    refine hsound.addVersion hvid hcreated ?_
    obtain ⟨r, hr, hrid⟩ := Holdings.exists_mem_replacePolicy (p := changed) hp
    exact ⟨r, hr, hrid.trans howner.symm⟩

/-- Versions stay when a policy is revised. -/
theorem grows_of_holds {h' : Holdings} (hc : c.state.Keeps h) (hd : d.state.Keeps h')
    (hmore : h.versionsOf p₀.id <+: h'.versionsOf p₀.id) : (terms p₀).grows c d := by
  show List.filter _ _ <+: List.filter _ _
  rw [hc.holds.filter_isVersionOf, hd.holds.filter_isVersionOf]
  exact hmore.map versionDocument

/-- The writes of a revision, as far as they are looked at. -/
theorem exchange_update {changed : Policy} (next? : Option PolicyVersion) (hid : changed.id = p₀.id)
    (hread : ofJson? changed.document.source = some changed) (x : Exchange effects)
    (hx : x = ⟨.store (.bulk Shelf.policies.index (.update changed.document ::
      (next?.map fun v => Write.create (versionDocument v)).toList)), .ok ()⟩) :
    x.revises p₀.id = true ∧ x.addsVersion = next?.isSome ∧ x.buries p₀.id = changed.deleted := by
  have hdocument : changed.document.id = p₀.id := hid
  have hwrites : x.policyWrites = .update changed.document ::
      (next?.map fun v => Write.create (versionDocument v)).toList := by
    rw [hx]
    rfl
  rw [Exchange.revises, Exchange.addsVersion, Exchange.buries, hwrites]
  cases next? <;> simp [Write.isCreate, Write.replacement?, hdocument, hread]

/-- **A revision that the store takes** has used the number after the last one, or has added none. -/
theorem Revised.update {p' : Policy} (hp' : Revised p₀ c h p') (hp : Recalls p₀ i p c)
    (hlive : p.deleted = false) {revision : Revision} {current : PolicyVersion}
    {next? : Option PolicyVersion} {time : Instant} (hcurrent : current.version = p.currentVersion)
    (hnext : revision.IsNext refusal c.state p.id current next?) (hshown : time ∈ c.state.times)
    (hreply : (Memory.perform (.bulk Shelf.policies.index
      (.update (p.revised revision next? time).document ::
        (next?.map fun v => Write.create (versionDocument v)).toList)) c.state.memory).1 = .ok ()) :
    ∃ h' : Holdings, Revised p₀ (c.after i (.store (.bulk Shelf.policies.index
        (.update (p.revised revision next? time).document ::
          (next?.map fun v => Write.create (versionDocument v)).toList))) (.ok ())) h'
        (p.revised revision next? time) ∧
      h.versionsOf p₀.id <+: h'.versionsOf p₀.id := by
  obtain ⟨hmem, hid⟩ := hp'.keeps.holds.policy?_eq_some.1 hp'.found
  have hreplaced : (p.revised revision next? time).id = p'.id := hp.id.trans hid.symm
  -- the store made the changes, so they fitted
  obtain ⟨ds, hchange⟩ := hp'.keeps.holds.changeAll?_of_perform hreply
  rw [changeAll?_update hchange] at hchange
  have hholds := (hp'.keeps.holds.perform_bulk
    { h with
      policies := h.replacePolicy (p.revised revision next? time) ++ next?.toList.map PolicyEntry.version }
    hchange (Holdings.documents_frame (.inl rfl) (.inr rfl) (.inr rfl) (.inr rfl))).2
  let q : Request := .store (.bulk Shelf.policies.index (.update (p.revised revision next? time).document ::
    (next?.map fun v => Write.create (versionDocument v)).toList))
  have hlater : c.state.log <+: (c.state.after q (.ok ())).log := List.prefix_append _ _
  have hnext' : ∀ v, next? = some v → v.id = versionId v.policyId v.version ∧ v.policyId = p.id ∧
      v.version = p.currentVersion + 1 ∧ v.created ∈ c.state.times := by
    rintro v rfl
    obtain ⟨source, time', htime', -, rfl⟩ := hnext.exists_source
    refine ⟨rfl, rfl, ?_, htime'⟩
    show current.version + 1 = _
    rw [hcurrent]
  have hkeeps := keeps_revise (t := c.state.after q (.ok ())) hp'.keeps (p.revised revision next? time)
    next? hmem hreplaced hp.bare ⟨State.times_subset hlater hp.created, State.times_subset hlater hshown⟩
    (fun v hv => by
      obtain ⟨hvid, howner, -, hcreated⟩ := hnext' v hv
      exact ⟨hvid, howner.trans (hp.id.trans hid.symm), State.times_subset hlater hcreated⟩)
    hlater (hp'.keeps.honest.after (q := q) hreply.symm) hholds
  have hchanged : .policy (p.revised revision next? time) ∈
      h.replacePolicy (p.revised revision next? time) ++ next?.toList.map PolicyEntry.version :=
    List.mem_append_left _ (List.mem_map.2 ⟨_, hmem, if_pos hreplaced.symm⟩)
  obtain ⟨hrevises, hadds, hburies⟩ := exchange_update next? (hreplaced.trans hid)
    (hkeeps.read_policy hchanged) ⟨q, .ok ()⟩ rfl
  refine ⟨_, hp'.revise next? hp hlive hkeeps rfl (hreplaced.trans hid) rfl (fun v hv => ?_) hrevises hadds
    hburies, ?_⟩
  · obtain ⟨-, howner, hversion, -⟩ := hnext' v hv
    exact ⟨howner.trans hp.id, hversion⟩
  · exact versionsOf_isPrefix hp'.keeps.holds hmem hreplaced rfl p₀.id

/-- **A revision withstands the others.** -/
theorem withstands_update (revision : Revision) (hI : (terms p₀).inv c) :
    Withstands (terms p₀) i (fun _ _ => True) (update refusal p₀.id revision) c := by
  refine (reads_require _).withstands_bind (asksOnce_require _) hI trivial (fun _ _ _ => trivial)
    fun p d e he => ?_
  have hp := Recalls.of_heard he
  refine withstands_ensure_bind (fun _ => trivial) fun hlive => ?_
  refine (reads_findVersion? _).withstands_bind (asksOnce_findVersion? _) he.inv trivial
    (fun _ _ _ => trivial) fun found d₁ e₁ he₁ => ?_
  cases found with
  | none => trivial
  | some current =>
    have hcurrent : current.version = p.currentVersion := by
      obtain ⟨h₁, p₁, hp₁⟩ := he₁.before
      obtain ⟨hfound, -⟩ := (ends_findVersion? hp₁.keeps).1 he₁.ends
      exact (version_of_found hp₁.keeps (Except.ok.inj hfound).symm).2
    refine withstands_ensure_bind (fun _ => trivial) fun _ => ?_
    refine (reads_nextVersion? ..).withstands_bind (asksOnce_nextVersion? ..) he₁.inv trivial
      (fun _ _ _ => trivial) fun next? d₂ e₂ he₂ => ?_
    obtain ⟨hnext, -⟩ := nextVersion?_ok he₂.ends
    refine reads_now.withstands_bind asksOnce_now he₂.inv trivial (fun _ _ _ => trivial)
      fun time d₃ e₃ he₃ => ?_
    have hshown := mem_times_of_now he₃.ends
    have hp₃ := ((hp.mono he₁.idles.spares).mono he₂.idles.spares).mono he₃.idles.spares
    have hnext₃ := hnext.mono he₃.idles.log_isPrefix
    refine withstands_call_bind trivial fun f hf _ ⟨h, p', hrevised⟩ reply hreply => ?_
    -- what was learned before is still so when the bulk is made
    have hp₄ := hp₃.mono hf.idles.spares
    have hnext₄ := hnext₃.mono hf.log_isPrefix
    have hshown₄ := State.times_subset hf.log_isPrefix hshown
    cases reply with
    | error x =>
      have hkeeps := hrevised.keeps.after_of_error hreply
      exact ⟨⟨h, p', hrevised.quiet hkeeps rfl rfl⟩,
        grows_of_holds hrevised.keeps hkeeps (List.prefix_refl _), trivial⟩
    | ok _ =>
      have hlive' : p.deleted = false := by simpa using hlive
      obtain ⟨h', hp₅, hmore⟩ := hrevised.update hp₄ hlive' hcurrent hnext₄ hshown₄ hreply
      exact ⟨⟨h', _, hp₅⟩, grows_of_holds hrevised.keeps hp₅.keeps hmore, trivial⟩

/-- The write of a deletion, as far as it is looked at. -/
theorem exchange_mark {time : Instant} (hid : p.id = p₀.id)
    (hread : ofJson? (p.tombstone time).document.source = some (p.tombstone time)) (x : Exchange effects)
    (hx : x = ⟨.store (.write Shelf.policies.index (.update (p.tombstone time).document)), .ok ()⟩) :
    x.revises p₀.id = true ∧ x.addsVersion = false ∧ x.buries p₀.id = true := by
  have hdocument : (p.tombstone time).document.id = p₀.id := hid
  have hdeleted : (p.tombstone time).deleted = true := rfl
  have hwrites : x.policyWrites = [.update (p.tombstone time).document] := by
    rw [hx]
    rfl
  rw [Exchange.revises, Exchange.addsVersion, Exchange.buries, hwrites]
  simp [Write.isCreate, Write.replacement?, hdocument, hread, hdeleted]

/-- A policy that is held can be marked, by whatever was read of it. -/
theorem keeps_mark {s : State} {q : Policy} {time : Instant} (hs : s.Keeps h)
    (hq : h.policy? p.id = some q) (hbare : p.version? = none) (hcreated : p.created ∈ s.times)
    (hshown : time ∈ s.times) :
    let call : Call := .write Shelf.policies.index (.update (p.tombstone time).document)
    (Memory.perform call s.memory).1 = .ok () ∧
      (s.after (.store call) (.ok ())).Keeps { h with policies := h.replacePolicy (p.tombstone time) } := by
  obtain ⟨hmem, hid⟩ := hs.holds.policy?_eq_some.1 hq
  let r : Request := .store (.write Shelf.policies.index (.update (p.tombstone time).document))
  obtain ⟨hok, hholds⟩ := hs.holds.perform_write { h with policies := h.replacePolicy (p.tombstone time) }
    (fits_update_policy (q := p.tombstone time) hmem hid.symm) (change_update_policy h _)
    (Holdings.documents_frame (.inl rfl) (.inr rfl) (.inr rfl) (.inr rfl))
  have hlater : s.log <+: (s.after r (.ok ())).log := List.prefix_append _ _
  have hsound := (hs.sound.mono hlater).replacePolicy (q := p.tombstone time) hmem hid.symm hbare
    (State.times_subset hlater hcreated) (State.times_subset hlater hshown)
  exact ⟨hok, hs.honest.after (q := r) hok.symm, hholds, hsound⟩

/-- **A deletion that marks the policy** has it deleted, whatever else is lost. -/
theorem withstands_mark (hp : Recalls p₀ i p c) (hlive : p.deleted = false) (hI : (terms p₀).inv c) :
    Withstands (terms p₀) i (fun _ _ => True) (mark p) c := by
  refine reads_now.withstands_bind asksOnce_now hI trivial (fun _ _ _ => trivial)
    fun time d e he => ?_
  have hshown := mem_times_of_now he.ends
  have hp₁ := hp.mono he.idles.spares
  refine withstands_call_bind trivial fun f hf _ ⟨h, p', hp'⟩ reply hreply => ?_
  have hp₂ := hp₁.mono hf.idles.spares
  have hfound : h.policy? p.id = some p' := hp₂.id.symm ▸ hp'.found
  obtain ⟨hok, hkeeps⟩ := keeps_mark hp'.keeps hfound hp₂.bare hp₂.created
    (State.times_subset hf.log_isPrefix hshown)
  obtain rfl : reply = .ok () := hreply.symm.trans hok
  obtain ⟨hmem, hid⟩ := hp'.keeps.holds.policy?_eq_some.1 hfound
  have hreplaced : (p.tombstone time).id = p'.id := hid.symm
  have hchanged : .policy (p.tombstone time) ∈ h.replacePolicy (p.tombstone time) :=
    List.mem_map.2 ⟨_, hmem, if_pos hid⟩
  have hread : ofJson? (p.tombstone time).document.source = some (p.tombstone time) :=
    hkeeps.read_policy hchanged
  obtain ⟨hrevises, hadds, hburies⟩ := exchange_mark hp₂.id hread
    ⟨.store (.write Shelf.policies.index (.update (p.tombstone time).document)), .ok ()⟩ rfl
  have hpolicies : h.replacePolicy (p.tombstone time) =
      h.replacePolicy (p.tombstone time) ++ Option.toList (none : Option PolicyEntry) := by simp
  refine ⟨⟨_, _, hp'.revise none hp₂ hlive hkeeps hpolicies hp₂.id rfl (fun v hv => by contradiction)
    hrevises hadds hburies⟩, ?_, trivial⟩
  exact grows_of_holds hp'.keeps hkeeps (versionsOf_isPrefix hp'.keeps.holds hmem hreplaced hpolicies p₀.id)

/-- **A deletion withstands the others.** -/
theorem withstands_delete (hI : (terms p₀).inv c) :
    Withstands (terms p₀) i (fun _ _ => True) (delete p₀.id) c := by
  refine (reads_require _).withstands_bind (asksOnce_require _) hI trivial (fun _ _ _ => trivial)
    fun p d e he => ?_
  have hp := Recalls.of_heard he
  refine withstands_ensure_bind (fun _ => trivial) fun hlive => ?_
  have hlive' : p.deleted = false := by simpa using hlive
  refine (AssignmentScope.reads_assignments _).withstands_bind (AssignmentScope.asksOnce_assignments _)
    he.inv trivial (fun _ _ _ => trivial) fun as d₁ e₁ he₁ => ?_
  have hp₁ := hp.mono he₁.idles.spares
  cases as with
  | nil => exact withstands_mark hp₁ hlive' he₁.inv
  | cons a as =>
    refine withstands_call_bind trivial fun f hf _ ⟨h, p', hp'⟩ reply hreply => ?_
    have hp₂ := hp₁.mono hf.idles.spares
    cases reply with
    | error x =>
      have hkeeps := hp'.keeps.after_of_error hreply
      exact ⟨⟨h, p', hp'.quiet hkeeps rfl rfl⟩,
        grows_of_holds hp'.keeps hkeeps (List.prefix_refl _), trivial⟩
    | ok _ =>
      -- the assignments are on another shelf
      have hkeeps := hp'.keeps.after_drop hreply
      have hp₃ := hp'.quiet (i := i) hkeeps rfl rfl
      exact ⟨⟨_, p', hp₃⟩, grows_of_holds hp'.keeps hkeeps (List.prefix_refl _),
        withstands_mark (hp₂.mono (.after _ _ _ fun _ => rfl)) hlive' ⟨_, p', hp₃⟩⟩

end Calls

/-! ## A reading that is outdated -/

/-- What a revision does with the policy that it has read. -/
def revise (refusal : Rego.Refusal) (id : String) (revision : Revision) (policy : Policy) :
    Action Policy := do
  ensure (!policy.deleted) (.deleted .policy id)
  let currentId := versionId id policy.currentVersion
  let current ← match ← findVersion? currentId with
    | some v => pure v
    | none => throw (.internal "error updating policy" (.lackingVersion id currentId))
  ensure (revision.name? ≠ some "") .emptyPolicyName
  let next? ← nextVersion? refusal policy current revision
  let changed := policy.revised revision next? (← now)
  let _ ← call "error updating policy" (.bulk Shelf.policies.index
    (.update changed.document :: (next?.map fun v => Write.create (versionDocument v)).toList))
  return { changed with version? := some (next?.getD current) }

theorem update_eq (refusal : Rego.Refusal) (id : String) (revision : Revision) :
    update refusal id revision = require id >>= revise refusal id revision := rfl

theorem asksAtMost_revise (refusal : Rego.Refusal) (id : String) (revision : Revision) (p : Policy) :
    (revise refusal id revision p).run.AsksAtMost 4 := by
  show Program.AsksAtMost (0 + (1 + (0 + (0 + (1 + (1 + (1 + 0))))))) _
  refine asksAtMost_bind (isSilent_ensure _ _) fun _ =>
    asksAtMost_bind (asksOnce_findVersion? _) fun found => ?_
  cases found with
  | none => trivial
  | some current =>
    refine asksAtMost_bind (a := pure current) trivial fun _ => asksAtMost_bind (isSilent_ensure _ _)
      fun _ => asksAtMost_bind (asksOnce_nextVersion? ..) fun next? => asksAtMost_bind asksOnce_now
      fun time => asksAtMost_bind (asksOnce_call _ _) fun _ => ?_
    trivial

theorem asksAtMost_update (refusal : Rego.Refusal) (id : String) (revision : Revision) :
    (update refusal id revision).run.AsksAtMost 5 := by
  rw [update_eq]
  exact asksAtMost_bind (asksOnce_require id) (asksAtMost_revise refusal id revision)

theorem asksAtMost_delete (id : String) : (delete id).run.AsksAtMost 5 := by
  show Program.AsksAtMost (1 + (0 + (1 + (1 + 2)))) _
  refine asksAtMost_bind (asksOnce_require id) fun p => asksAtMost_bind (isSilent_ensure _ _) fun _ =>
    asksAtMost_bind (AssignmentScope.asksOnce_assignments _) fun as => ?_
  have hmark : (mark p).run.AsksAtMost (1 + (1 + 0)) :=
    asksAtMost_bind asksOnce_now fun _ => asksAtMost_bind (asksOnce_call _ _) fun _ => trivial
  cases as with
  | nil => exact hmark.mono (by decide)
  | cons a as => exact asksAtMost_bind (asksOnce_call _ _) fun _ => hmark

/-- **A policy that was read can be renamed whatever has become of it.** -/
theorem rename_succeeds (refusal : Rego.Refusal) {s : State} {h : Holdings} {p q : Policy}
    {current : PolicyVersion} {time : Instant} (name : String) (hs : s.Keeps h)
    (hq : h.policy? p.id = some q) (hlive : p.deleted = false) (hbare : p.version? = none)
    (hcreated : p.created ∈ s.times) (last : h.version? (versionId p.id p.currentVersion) = some current)
    (hname : name ≠ "") (htime : time.IsKept) :
    ∃ r t, Ends surroundings (revise refusal p.id ⟨some name, none, none, none, none⟩ p) s (.ok r) t ∧
      t.Keeps { h with
        policies := h.replacePolicy (p.revised ⟨some name, none, none, none, none⟩ none time) } := by
  let revision : Revision := ⟨some name, none, none, none, none⟩
  obtain ⟨hmem, hid⟩ := hs.holds.policy?_eq_some.1 hq
  have hfind := (ends_findVersion? (t := s.got .policies (versionId p.id p.currentVersion)) hs).2 ⟨rfl, rfl⟩
  have hs₁ := (reads_findVersion? _).keeps hfind hs
  rw [last] at hfind
  let asked : State := (s.got .policies (versionId p.id p.currentVersion)).after .now time
  let call : Call := .bulk Shelf.policies.index [.update (p.revised revision none time).document]
  have hchange : Write.changeAll? [.update (p.revised revision none time).document]
      (h.documents .policies) =
        some ((h.replacePolicy (p.revised revision none time)).map PolicyEntry.document) := by
    have hrevise := changeAll?_revise (h := h) (q := p.revised revision none time) none hmem hid.symm
      fun v hv => by contradiction
    simpa using hrevise
  have hbulk := hs.holds.perform_bulk { h with policies := h.replacePolicy (p.revised revision none time) }
    hchange (Holdings.documents_frame (.inl rfl) (.inr rfl) (.inr rfl) (.inr rfl))
  have hperform : (Memory.perform call asked.memory).1 = .ok () := hbulk.1
  have he : Ends surroundings (revise refusal p.id revision p) s
      (.ok { p.revised revision none time with version? := some current })
      (asked.after (.store call) (.ok ())) :=
    ends_ensure_bind_ok.2 ⟨by simp [hlive], ends_bind_ok.2 ⟨some current, _, hfind,
      ends_ensure_bind_ok.2 ⟨by simpa [revision] using hname, ends_now_bind.2 ⟨time, htime,
        (ends_call_bind_of_ok hperform).2 (ends_pure.2 ⟨rfl, rfl⟩)⟩⟩⟩⟩
  have hlog : asked.log <+: (asked.after (.store call) (.ok ())).log := List.prefix_append _ _
  have hkeeps := keeps_revise (t := asked.after (.store call) (.ok ())) hs
    (p.revised revision none time) none hmem hid.symm hbare
    ⟨State.times_subset he.log_isPrefix hcreated, State.times_subset hlog (State.mem_times_now time)⟩
    (fun v hv => by contradiction) he.log_isPrefix (he.honest hs.honest) (by
      rw [Option.toList_none, List.map_nil, List.append_nil]
      exact hbulk.2)
  exact ⟨_, _, he, by simpa using hkeeps⟩

/-- What was deleted is marked. -/
theorem delete_marked {s t : State} {h : Holdings} {id : String} {p : Policy} (hs : s.Keeps h)
    (found : h.policy? id = some p) (he : Ends surroundings (delete id) s (.ok ()) t) :
    ∃ time, t.Keeps { h with
      policies := h.replacePolicy (p.tombstone time)
      assignments := h.assignments.filter fun a => !(AssignmentScope.policy id).covers a } := by
  obtain ⟨h', ht, hchange⟩ := perform_ends hs (ends_administrator (o := .deletePolicy id) he)
  cases hchange with
  | read reads => contradiction
  | @deletePolicy id q time found' live shown =>
    obtain rfl := Option.some.inj (found.symm.trans found')
    exact ⟨time, ht⟩

end Policy

namespace Service.First

/-- Three calls for the first policy: one gives it a name, one a source, and one deletes it. -/
def rivals : Fin 3 → Invocation
  | 0 => ⟨administrator, .updatePolicy id ⟨some "renamed", none, none, none, none⟩⟩
  | 1 => ⟨administrator, .updatePolicy id ⟨none, none, some source, none, none⟩⟩
  | 2 => ⟨administrator, .deletePolicy id⟩

theorem rivals_revise (i : Fin 3) : (∃ revision, (rivals i).operation = .updatePolicy id revision) ∨
    (rivals i).operation = .deletePolicy id :=
  match i with
  | 0 => .inl ⟨_, rfl⟩
  | 1 => .inl ⟨_, rfl⟩
  | 2 => .inr rfl

/-- The first call reads the policy, the others do all of theirs, and then the first call goes on. -/
theorem exists_overlap : ∃ (r : Policy) (s : State) (pool pool' : Pool rivals) (c d : Course (Fin 3)),
    Ends surroundings (lenient.perform administrator (.createPolicy draft)) .initial (.ok r) s ∧
    s.memory.policy? id = some (draft.policy id time) ∧
    Concurrently lenient rivals s pool c ∧ Proceeds pool c pool' d ∧
    pool 2 = .done (.ok ()) ∧ (∀ i, ∃ r, pool' i = .done (.ok r)) ∧
    (∃ p, c.state.memory.policy? id = some p ∧ p.currentVersion = 2 ∧ p.deleted = true) ∧
    (∃ q, d.state.memory.policy? id = some q ∧ q.currentVersion = 1 ∧ q.deleted = false) ∧
    (∃ v w, (d.state.memory.documents Shelf.policies.index).filter (Policy.isVersionOf id) =
      [Policy.versionDocument v, Policy.versionDocument w] ∧ v.version = 1 ∧ w.version = 2) ∧
    d.turns.length ≤ 15 := by
  obtain ⟨r, s, he, hs, -, htimes⟩ := exists_created
  let pool₀ : Pool rivals := fun i => (rivals i).program lenient
  -- the first call reads the policy
  have hread := (ends_require_ok (t := s.got .policies id) hs).2 ⟨policy?_created, rfl⟩
  have hs₁ := (Policy.reads_require id).keeps hread hs
  obtain ⟨c₁, hc₁, hproceeds₁, hturns₁⟩ := exists_proceeds pool₀ 0 (c := .start s)
    (f := ExceptT.bindCont (Policy.revise lenient.refusal id ⟨some "renamed", none, none, none, none⟩))
    (Invocation.program_administrator _) hread
  let pool₁ : Pool rivals := Function.update pool₀ 0
    (Policy.revise lenient.refusal id ⟨some "renamed", none, none, none, none⟩ (draft.policy id time)).run
  -- the second call sets the source
  obtain ⟨r₂, t₂, hsource, hs₂⟩ := Policy.update_succeeds hs₁ policy?_created rfl version?_created
    (by decide) source_isValid (by decide) time_isKept
  obtain ⟨c₂, hc₂, hproceeds₂, hturns₂⟩ := exists_proceeds_done pool₁ 1 (c := c₁)
    (Invocation.program_administrator _) (hc₁ ▸ hsource)
  let pool₂ : Pool rivals := Function.update pool₁ 1 (.done (.ok r₂))
  -- the third call deletes the policy
  obtain ⟨t₃, hdelete⟩ := Policy.delete_succeeds hs₂ (show Holdings.policy? _ id = some _ from rfl) rfl
    time_isKept
  obtain ⟨time', hs₃⟩ := Policy.delete_marked hs₂ (by rfl) hdelete
  obtain ⟨c₃, hc₃, hproceeds₃, hturns₃⟩ := exists_proceeds_done pool₂ 2 (c := c₂)
    (Invocation.program_administrator _) (hc₂ ▸ hdelete)
  let pool₃ : Pool rivals := Function.update pool₂ 2 (.done (.ok ()))
  -- and the first call goes on with what it had read
  have hcreated : time ∈ t₃.times := by
    have hlog : s.log <+: t₃.log := (hread.log_isPrefix.trans hsource.log_isPrefix).trans hdelete.log_isPrefix
    exact State.times_subset hlog (htimes ▸ List.mem_singleton_self time)
  obtain ⟨r₄, t₄, hrename, hs₄⟩ := Policy.rename_succeeds lenient.refusal
    (p := draft.policy id time) "renamed" hs₃ (by rfl) rfl rfl hcreated (by rfl) (by decide) time_isKept
  obtain ⟨c₄, hc₄, hproceeds₄, hturns₄⟩ := exists_proceeds_done pool₃ 0 (c := c₃)
    (show pool₃ 0 = ExceptT.run _ from rfl) (hc₃ ▸ hrename)
  refine ⟨r, s, pool₃, _, c₃, c₄, he, hs.policy?_eq.trans policy?_created,
    (hproceeds₁.append hproceeds₂).append hproceeds₃, hproceeds₄, rfl, ?_, ?_, ?_, ?_, ?_⟩
  · intro i
    match i with
    | 0 => exact ⟨_, rfl⟩
    | 1 => exact ⟨_, rfl⟩
    | 2 => exact ⟨_, rfl⟩
  · rw [hc₃, hs₃.policy?_eq]
    exact ⟨_, rfl, rfl, rfl⟩
  · rw [hc₄, hs₄.policy?_eq]
    exact ⟨_, rfl, rfl, rfl⟩
  · rw [hc₄, hs₄.holds.filter_isVersionOf]
    exact ⟨_, _, rfl, rfl, rfl⟩
  · have hnone : (Course.start s : Course (Fin 3)).turns.length = 0 := rfl
    have hread' := hturns₁ 1 (Policy.asksOnce_require id)
    have hsource' := hturns₂ 5 (Policy.asksAtMost_update _ _ _)
    have hdelete' := hturns₃ 5 (Policy.asksAtMost_delete _)
    have hrename' := hturns₄ 4 (Policy.asksAtMost_revise _ _ _ _)
    omega

end Service.First

namespace Policy

variable {ι : Type}

/-! ## At every moment -/

/-- A policy that is reached by calls one after the other has all of its versions. -/
theorem Revised.start {svc : Service} {earlier : List Step} {s : State} {id : String} {p₀ : Policy}
    (hearlier : Run svc .initial earlier s) (hfound : s.memory.policy? id = some p₀)
    (hroom : ∀ other, earlier.countP (Step.setsContent other) < UInt32.size - 1) :
    ∃ h, Revised p₀ (.start s : Course ι) h p₀ ∧
      p₀.currentVersion.toNat ≤ 1 + earlier.countP (Step.setsContent p₀.id) := by
  have hnumbered : Holdings.empty.IsNumbered fun _ => 0 := fun _ hp => absurd hp List.not_mem_nil
  obtain ⟨h, hs, hh, -⟩ := hearlier.numbered State.keeps_initial hnumbered fun other => by
    rw [Nat.zero_add]
    exact hroom other
  obtain ⟨h', hs', hlinked⟩ := hearlier.linked State.keeps_initial Holdings.isLinked_empty
  rw [hs.policy?_eq] at hfound
  obtain ⟨hmem, rfl⟩ := hs.holds.policy?_eq_some.1 hfound
  obtain ⟨hversions, hle⟩ := hh p₀ hmem
  simp only [Nat.zero_add] at hle
  refine ⟨h, ⟨hs, hfound, fun _ => hversions, fun _ => ⟨?_, Nat.le_refl _⟩, fun _ => .inl rfl,
    fun hburied => .inl ?_⟩, hle⟩
  · -- the current version is held, so that there is one
    have hmem' : .policy p₀ ∈ h'.policies := by
      have hfound' : h'.policy? p₀.id = some p₀ := by rw [← hs'.policy?_eq, hs.policy?_eq, hfound]
      exact (hs'.holds.policy?_eq_some.1 hfound').1
    obtain ⟨v, hv, hvid⟩ := hlinked.current p₀ hmem'
    have hv' : h.version? (versionId p₀.id p₀.currentVersion) = some v := by
      rw [← hs.version?_eq, hs'.version?_eq]
      exact hs'.holds.version?_eq_some.2 ⟨hv, hvid⟩
    obtain ⟨howner, hnumber⟩ := version_of_found hs hv'
    have hin : v ∈ h.versionsOf p₀.id := mem_versionsOf.2 ⟨(hs.holds.version?_eq_some.1 hv').1, howner⟩
    have hrange : v.version.toNat ∈ List.range' 1 p₀.currentVersion.toNat :=
      hversions ▸ List.mem_map.2 ⟨v, hin, rfl⟩
    rw [hnumber, List.mem_range'_1] at hrange
    exact hrange.1
  · rcases hburied with hdeleted | ⟨t, ht, -⟩
    · exact hdeleted
    · exact absurd ht List.not_mem_nil

/-- **Every call that revises the policy withstands the others.** -/
theorem withstands_revision {p₀ : Policy} {refusal : Rego.Refusal} {i : ι} {c : Course ι} {o : Operation}
    (hI : (terms p₀).inv c)
    (ho : (∃ revision, o = .updatePolicy p₀.id revision) ∨ o = .deletePolicy p₀.id) :
    Withstands (terms p₀) i (fun _ _ => True) (o.action refusal) c := by
  rcases ho with ⟨revision, rfl⟩ | rfl
  · exact withstands_update revision hI
  · exact withstands_delete hI

/-- **What becomes of a policy whose changes overlap.**  Calls one after the other have led to a policy, and
then any number of calls revise and delete it at the same time.  At every moment:

* the versions are those from before and those that were added, numbered from 1 without a gap, none of
  them lost or changed;
* the current version is one of them.  It is the last one, and not an earlier one than at any moment
  before, unless a call has written the policy whose reading another call's version had outdated, and no
  version was added since;
* a policy that was marked as deleted is deleted, unless a call has written the policy whose reading the
  mark had outdated, and it was not marked again since. -/
theorem overlapping_revisions [DecidableEq ι] {svc : Service} {earlier : List Step} {s : State}
    {id : String} {p₀ : Policy} {calls : ι → Invocation} {pool pool' : Pool calls} {c d : Course ι}
    (hearlier : Run svc .initial earlier s) (hfound : s.memory.policy? id = some p₀)
    (hcalls : ∀ i, (∃ revision, (calls i).operation = .updatePolicy id revision) ∨
      (calls i).operation = .deletePolicy id)
    (hrun : Concurrently svc calls s pool c) (hmore : Proceeds pool c pool' d)
    (hroom : ∀ other, earlier.countP (Step.setsContent other) +
      d.turns.countP (fun t => t.exchange.addsVersion) < UInt32.size - 1) :
    ∃ (p q : Policy) (versions more : List PolicyVersion),
      c.state.memory.policy? id = some p ∧ d.state.memory.policy? id = some q ∧
      (c.state.memory.documents Shelf.policies.index).filter (isVersionOf id) =
        versions.map versionDocument ∧
      (d.state.memory.documents Shelf.policies.index).filter (isVersionOf id) =
        (versions ++ more).map versionDocument ∧
      (versions ++ more).map (fun v => v.version.toNat) = List.range' 1 (versions ++ more).length ∧
      (1 ≤ q.currentVersion.toNat ∧ q.currentVersion.toNat ≤ (versions ++ more).length) ∧
      (q.currentVersion.toNat = (versions ++ more).length ∨ IsBehind id d.turns) ∧
      (p.currentVersion ≤ q.currentVersion ∨ IsBehind id d.turns) ∧
      (p₀.deleted = true ∨ (∃ t ∈ d.turns, t.exchange.buries id = true) →
        q.deleted = true ∨ IsRevived id d.turns) := by
  obtain ⟨h₀, hstart, hfew⟩ := Revised.start (ι := ι) hearlier hfound fun other =>
    Nat.lt_of_le_of_lt (Nat.le_add_right _ _) (hroom other)
  obtain rfl : p₀.id = id := (hstart.keeps.holds.policy?_eq_some.1 (hstart.keeps.policy?_eq ▸ hfound)).2
  have hI : (terms p₀).inv (.start s : Course ι) := ⟨h₀, p₀, hstart⟩
  have hpool : ∀ i, Withstands (terms p₀) i (fun _ _ => True)
      (svc.perform (calls i).caller (calls i).operation) (.start s) := by
    intro i
    exact withstands_perform (fun _ => trivial) (withstands_revision hI (hcalls i))
  obtain ⟨hIc, -, hleft⟩ := hrun.withstands (fun _ _ _ _ _ _ _ _ => trivial) hI hpool
  obtain ⟨hId, hgrows, -⟩ := hmore.withstands (fun _ _ _ _ _ _ _ _ => trivial) hIc hleft
  obtain ⟨h, p, hp⟩ := hIc
  obtain ⟨h', q, hq⟩ := hId
  -- there is room for all versions so far, and so there was before
  have hroom' : latest p₀ d.turns < UInt32.size := by
    have hbound := hroom p₀.id
    rw [latest]
    omega
  have hle : latest p₀ c.turns ≤ latest p₀ d.turns := by
    obtain ⟨xs, hxs⟩ := hmore.continues.turns_isPrefix
    rw [← hxs, latest_append]
    exact Nat.le_add_right _ _
  -- versions stay, so that those before are a part of those after
  have hprefix : List.filter _ _ <+: List.filter _ _ := hgrows
  rw [hq.keeps.holds.filter_isVersionOf] at hprefix
  obtain ⟨added, hadded⟩ := hprefix
  obtain ⟨versions, more, hversions, hbefore, -⟩ := List.map_eq_append_iff.1 hadded.symm
  have hnumbers := hq.numbered hroom'
  have hlength : (h'.versionsOf p₀.id).length = latest p₀ d.turns := by
    rw [← List.length_map, hnumbers, List.length_range']
  refine ⟨p, q, versions, more, hp.keeps.policy?_eq.trans hp.found,
    hq.keeps.policy?_eq.trans hq.found, hbefore.symm, ?_⟩
  rw [← hversions, hlength]
  obtain ⟨-, hbound⟩ := hp.current (Nat.lt_of_le_of_lt hle hroom')
  refine ⟨hq.keeps.holds.filter_isVersionOf _, hnumbers, hq.current hroom', hq.newest hroom', ?_,
    hq.buried⟩
  refine (hq.newest hroom').imp_left fun hlast => ?_
  rw [UInt32.le_iff_toNat_le, hlast]
  exact Nat.le_trans hbound hle

/-- A policy is behind its versions when a call has written it that had not seen the last of them. -/
theorem overlapping_revisions_behind : ∃ (x : Step) (s : State) (pool pool' : Pool First.rivals)
    (c d : Course (Fin 3)), Run lenient .initial [x] s ∧
    s.memory.policy? First.id = some (First.draft.policy First.id First.time) ∧
    Concurrently lenient First.rivals s pool c ∧ Proceeds pool c pool' d ∧
    (∀ other, [x].countP (Step.setsContent other) +
      d.turns.countP (fun t => t.exchange.addsVersion) < UInt32.size - 1) ∧
    IsBehind First.id d.turns := by
  obtain ⟨r, s, pool, pool', c, d, he, hfound, hrun, hmore, -, -, -, ⟨q, hq, hcurrent, -⟩,
    ⟨v, w, hstored, -⟩, hfew⟩ := First.exists_overlap
  let x : Step := ⟨administrator, .createPolicy First.draft, .ok r, .initial, s⟩
  have hx : Run lenient .initial [x] s := .cons (x := x) he (.nil s)
  have hroom : ∀ other, [x].countP (Step.setsContent other) +
      d.turns.countP (fun t => t.exchange.addsVersion) < UInt32.size - 1 := by
    intro other
    have hone : [x].countP (Step.setsContent other) ≤ 1 := List.countP_le_length
    have hmany : d.turns.countP (fun t => t.exchange.addsVersion) ≤ 15 :=
      List.countP_le_length.trans hfew
    have hsize : UInt32.size = 2 ^ 32 := rfl
    omega
  obtain ⟨-, q', versions, more, -, hq', -, hdocuments, -, -, hlast, -⟩ :=
    overlapping_revisions hx hfound First.rivals_revise hrun hmore hroom
  obtain rfl := Option.some.inj (hq.symm.trans hq')
  refine ⟨x, s, pool, pool', c, d, hx, hfound, hrun, hmore, hroom, hlast.resolve_left fun hlength => ?_⟩
  -- it points to the first of two versions
  have htwo := congrArg List.length (hdocuments.symm.trans hstored)
  rw [List.length_map] at htwo
  rw [htwo, hcurrent] at hlength
  simp at hlength

/-- **So it is not true that nothing is lost.**  All of the calls have succeeded.  When the second and the
third were done, the policy was deleted and pointed to its second version.  When the first was done too,
which had read the policy before, it was not deleted any more and pointed to its first version, although
the second was still stored. -/
theorem overlap_loses_revisions : ∃ (r : Policy) (s : State) (pool pool' : Pool First.rivals)
    (c d : Course (Fin 3)),
    Ends surroundings (lenient.perform administrator (.createPolicy First.draft)) .initial (.ok r) s ∧
    Concurrently lenient First.rivals s pool c ∧ Proceeds pool c pool' d ∧
    pool 2 = .done (.ok ()) ∧ (∀ i, ∃ r, pool' i = .done (.ok r)) ∧
    (∃ p, c.state.memory.policy? First.id = some p ∧ p.currentVersion = 2 ∧ p.deleted = true) ∧
    (∃ q, d.state.memory.policy? First.id = some q ∧ q.currentVersion = 1 ∧ q.deleted = false) ∧
    (∃ v w, (d.state.memory.documents Shelf.policies.index).filter (isVersionOf First.id) =
      [versionDocument v, versionDocument w] ∧ v.version = 1 ∧ w.version = 2) := by
  obtain ⟨r, s, pool, pool', c, d, he, -, hrun, hmore, hdeleted, hdone, hbefore, hafter, hstored, -⟩ :=
    First.exists_overlap
  exact ⟨r, s, pool, pool', c, d, he, hrun, hmore, hdeleted, hdone, hbefore, hafter, hstored⟩

end Policy
end Gatehouse
