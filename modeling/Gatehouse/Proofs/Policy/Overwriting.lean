import Gatehouse.Proofs.Policy.Versions
import Gatehouse.Proofs.Service.Concurrency

/-!
# What is left of a policy when changes of it overlap

A call that changes a policy reads it and later writes all of it.  The store takes every write, so what
others wrote in between is lost, except for one thing: a version has an id of its own, and an id that is
taken cannot be created again.

1. **Overwriting** (`Overwritten`).  A call read the policy, then another call did something to it, then
   the first call wrote what it had made of its reading, and nobody has done that thing since.
2. **What stays** whatever overlaps: versions, and their numbers without a gap.  Two content updates that
   overlap both ask for the same number, and the second is refused.
3. **What may be lost** (`Revised`): the current version, behind versions that other calls have added, and
   the mark of a deletion.  Either is lost only if it was overwritten.
4. **The crux** is what a call may still believe of a policy that it has read (`Recalls`): either nobody
   has done anything since, or another call has done it after the reading.
-/

namespace Gatehouse

open Service Store

/-! ## What a turn does to a policy -/

namespace Store.Write

/-- The write makes a new document. -/
def isCreate : Write → Bool
  | create _ => true
  | _ => false

/-- The documents that a write puts in the place of others. -/
def replacement? : Write → Option Document
  | update d => some d
  | _ => none

end Store.Write

namespace Exchange

/-- The writes that were made on the shelf of policies. -/
def policyWrites : Exchange effects → List Write
  | ⟨.store (.write index w), .ok _⟩ => if index = Shelf.policies.index then [w] else []
  | ⟨.store (.bulk index ws), .ok _⟩ => if index = Shelf.policies.index then ws else []
  | _ => []

/-- The policy of an id was asked for. -/
def ReadsPolicy (id : String) (x : Exchange effects) : Prop :=
  x.request = .store (.get Shelf.policies.index id)

/-- A version was added. -/
def addsVersion (x : Exchange effects) : Bool := x.policyWrites.any Write.isCreate

/-- The policy of an id was written anew. -/
def revises (id : String) (x : Exchange effects) : Bool :=
  x.policyWrites.any fun w => w.replacement?.any fun d => d.id = id

/-- The policy of an id was marked as deleted. -/
def buries (id : String) (x : Exchange effects) : Bool :=
  x.policyWrites.any fun w => w.replacement?.any fun d =>
    d.id = id && (Policy.ofJson? d.source).any Policy.deleted

/-- A request that is no write makes none. -/
theorem policyWrites_of_not_isWrite {x : Exchange effects} (hx : x.request.isWrite = false) :
    x.policyWrites = [] := by
  unfold policyWrites
  split
  · contradiction
  · contradiction
  · rfl

theorem addsVersion_eq_false {x : Exchange effects} (hx : x.policyWrites = []) :
    x.addsVersion = false := by
  rw [addsVersion, hx]
  rfl

theorem buries_eq_false {x : Exchange effects} (hx : x.policyWrites = []) (id : String) :
    x.buries id = false := by
  rw [buries, hx]
  rfl

end Exchange

/-- A call has written nothing on the shelf of policies. -/
abbrev Service.Course.Spares {ι : Type} (i : ι) : Course ι → Course ι → Prop :=
  Course.Continues fun x => x.call = i → x.exchange.policyWrites = []

theorem Service.Course.Continues.spares {ι : Type} {i : ι} {c d : Course ι} (h : c.Idles i d) :
    c.Spares i d := h.imp fun _ hread heq => Exchange.policyWrites_of_not_isWrite (hread heq)

/-! ## Overwriting -/

namespace Service

variable {ι : Type}

/-- A call read, then another call did it, then the first call wrote, and nobody has done it since. -/
def Overwritten (reads : Exchange effects → Prop) (does : Exchange effects → Bool)
    (writes : Exchange effects → Prop) (turns : List (Turn ι)) : Prop :=
  ∃ (past since : List (Turn ι)) (i j : ι) (x y z : Exchange effects), turns = past ++ since ∧
    j ≠ i ∧ reads x ∧ does y = true ∧ writes z ∧ [⟨i, x⟩, ⟨j, y⟩, ⟨i, z⟩].Sublist past ∧
    ∀ t ∈ since, does t.exchange = false

/-- After a turn of a call another call did it. -/
def Outdated (i : ι) (x : Exchange effects) (does : Exchange effects → Bool) (turns : List (Turn ι)) :
    Prop :=
  ∃ (j : ι) (y : Exchange effects), j ≠ i ∧ does y = true ∧ [⟨i, x⟩, ⟨j, y⟩].Sublist turns

/-- What came before, and then what came since. -/
theorem pair_sublist {α : Type} {x y : α} {xs ys : List α} (hx : x ∈ xs) (hy : y ∈ ys) :
    [x, y].Sublist (xs ++ ys) :=
  (List.singleton_sublist.2 hx).append (List.singleton_sublist.2 hy)

section Overwriting

variable {reads writes : Exchange effects → Prop} {does : Exchange effects → Bool}
  {turns more : List (Turn ι)} {i : ι} {x z : Exchange effects} {c d : Course ι}

theorem Overwritten.append (h : Overwritten reads does writes turns)
    (hmore : ∀ t ∈ more, does t.exchange = false) : Overwritten reads does writes (turns ++ more) := by
  obtain ⟨past, since, i, j, x, y, z, rfl, hne, hx, hy, hz, hpast, hsince⟩ := h
  refine ⟨past, since ++ more, i, j, x, y, z, List.append_assoc _ _ _, hne, hx, hy, hz, hpast, ?_⟩
  intro t ht
  exact (List.mem_append.1 ht).elim (hsince t) (hmore t)

theorem Outdated.append (h : Outdated i x does turns) (more : List (Turn ι)) :
    Outdated i x does (turns ++ more) := by
  obtain ⟨j, y, hne, hy, hturns⟩ := h
  exact ⟨j, y, hne, hy, hturns.trans (List.sublist_append_left _ _)⟩

/-- A write after an outdated reading. -/
theorem Outdated.overwritten (h : Outdated i x does turns) (hx : reads x) (hz : writes z) :
    Overwritten reads does writes (turns ++ [⟨i, z⟩]) := by
  obtain ⟨j, y, hne, hy, hturns⟩ := h
  refine ⟨turns ++ [⟨i, z⟩], [], i, j, x, y, z, (List.append_nil _).symm, hne, hx, hy, hz, ?_, ?_⟩
  · exact hturns.append (List.Sublist.refl [(⟨i, z⟩ : Turn ι)])
  · exact fun t ht => absurd ht List.not_mem_nil

/-- **What a call does not do itself** has not been done, or the call's reading is outdated. -/
theorem Course.Continues.undone_or_outdated
    (h : c.Continues (fun t => t.call = i → does t.exchange = false) d) (hx : ⟨i, x⟩ ∈ c.turns) :
    (∃ more, d.turns = c.turns ++ more ∧ ∀ t ∈ more, does t.exchange = false) ∨
      Outdated i x does d.turns := by
  obtain ⟨more, hturns, -, hmore⟩ := h
  by_cases hall : ∀ t ∈ more, does t.exchange = false
  · exact .inl ⟨more, hturns, hall⟩
  · simp only [not_forall, Bool.not_eq_false] at hall
    obtain ⟨t, ht, hdone⟩ := hall
    have hne : t.call ≠ i := fun heq => by
      rw [hmore t ht heq] at hdone
      contradiction
    refine .inr ⟨t.call, t.exchange, hne, hdone, ?_⟩
    rw [hturns]
    exact pair_sublist hx ht

end Overwriting
end Service

/-! ## A policy that calls revise -/

namespace Policy

variable {ι : Type}

/-- The number of versions of a policy after some turns, if its last one was the current one before. -/
def latest (p₀ : Policy) (turns : List (Turn ι)) : Nat :=
  p₀.currentVersion.toNat + turns.countP fun t => t.exchange.addsVersion

/-- The policy was written by a call that had not seen its last version. -/
def IsBehind (id : String) : List (Turn ι) → Prop :=
  Overwritten (Exchange.ReadsPolicy id) Exchange.addsVersion fun z =>
    z.revises id = true ∧ z.addsVersion = false

/-- The policy was written by a call that had not seen its deletion. -/
def IsRevived (id : String) : List (Turn ι) → Prop :=
  Overwritten (Exchange.ReadsPolicy id) (Exchange.buries id) fun z =>
    z.revises id = true ∧ z.buries id = false

/-- The policy was deleted before, or some turn has marked it. -/
def IsBuried (p₀ : Policy) (turns : List (Turn ι)) : Prop :=
  p₀.deleted = true ∨ ∃ t ∈ turns, t.exchange.buries p₀.id = true

/-- What has become of a policy. -/
structure Revised (p₀ : Policy) (c : Course ι) (h : Holdings) (p : Policy) : Prop where
  keeps : c.state.Keeps h
  found : h.policy? p₀.id = some p
  numbered : latest p₀ c.turns < UInt32.size →
    (h.versionsOf p₀.id).map (fun v => v.version.toNat) = List.range' 1 (latest p₀ c.turns)
  current : latest p₀ c.turns < UInt32.size →
    1 ≤ p.currentVersion.toNat ∧ p.currentVersion.toNat ≤ latest p₀ c.turns
  newest : latest p₀ c.turns < UInt32.size →
    p.currentVersion.toNat = latest p₀ c.turns ∨ IsBehind p₀.id c.turns
  buried : IsBuried p₀ c.turns → p.deleted = true ∨ IsRevived p₀.id c.turns

/-- The versions of a policy are numbered up to the latest, and the current one is among them, as the last
or behind. -/
structure Counts (p₀ : Policy) (turns : List (Turn ι)) (versions : List PolicyVersion) (current : UInt32) :
    Prop where
  numbered : versions.map (fun v => v.version.toNat) = List.range' 1 (latest p₀ turns)
  among : 1 ≤ current.toNat ∧ current.toNat ≤ latest p₀ turns
  newest : current.toNat = latest p₀ turns ∨ IsBehind p₀.id turns

/-- What a call that has read a policy, and written nothing since, may still believe. -/
structure Recalls (p₀ : Policy) (i : ι) (p : Policy) (c : Course ι) : Prop where
  id : p.id = p₀.id
  bare : p.version? = none
  created : p.created ∈ c.state.times
  reading : ∃ x : Exchange effects, x.ReadsPolicy p₀.id ∧ ⟨i, x⟩ ∈ c.turns ∧
    (latest p₀ c.turns < UInt32.size →
      (1 ≤ p.currentVersion.toNat ∧ p.currentVersion.toNat ≤ latest p₀ c.turns) ∧
      (p.currentVersion.toNat = latest p₀ c.turns ∨ IsBehind p₀.id c.turns ∨
        Outdated i x Exchange.addsVersion c.turns)) ∧
    (p.deleted = false → ¬ IsBuried p₀ c.turns ∨ IsRevived p₀.id c.turns ∨
      Outdated i x (Exchange.buries p₀.id) c.turns)

section Turns

variable {p₀ p changed : Policy} {turns more : List (Turn ι)} {i : ι} {c d : Course ι} {h h' : Holdings}
  {q : Request} {reply : q.Reply}

theorem latest_append (turns more : List (Turn ι)) :
    latest p₀ (turns ++ more) = latest p₀ turns + more.countP fun t => t.exchange.addsVersion := by
  rw [latest, latest, List.countP_append, Nat.add_assoc]

theorem latest_append_of_forall (h : ∀ t ∈ more, t.exchange.addsVersion = false) :
    latest p₀ (turns ++ more) = latest p₀ turns := by
  have hnone : more.countP (fun t => t.exchange.addsVersion) = 0 :=
    List.countP_eq_zero.2 fun t ht => by simp [h t ht]
  rw [latest_append, hnone, Nat.add_zero]

theorem isBuried_append : IsBuried p₀ (turns ++ more) ↔
    IsBuried p₀ turns ∨ ∃ t ∈ more, t.exchange.buries p₀.id = true := by
  simp only [IsBuried, List.mem_append, or_and_right, exists_or, or_assoc]

/-- What was read is outdated or still so. -/
theorem Recalls.mono (hp : Recalls p₀ i p c) (hspares : c.Spares i d) : Recalls p₀ i p d where
  id := hp.id
  bare := hp.bare
  created := State.times_subset hspares.log_isPrefix hp.created
  reading := by
    obtain ⟨x, hx, hturn, hlatest, hburied⟩ := hp.reading
    obtain ⟨xs, hxs⟩ := hspares.turns_isPrefix
    refine ⟨x, hx, hspares.turns_isPrefix.subset hturn, fun hroom => ?_, fun hlive => ?_⟩
    · have hle : latest p₀ c.turns ≤ latest p₀ d.turns := by
        rw [← hxs, latest_append]
        exact Nat.le_add_right _ _
      obtain ⟨⟨hpos, hbound⟩, hnewest⟩ := hlatest (Nat.lt_of_le_of_lt hle hroom)
      refine ⟨⟨hpos, Nat.le_trans hbound hle⟩, ?_⟩
      have hadds := hspares.imp fun t h heq => Exchange.addsVersion_eq_false (h heq)
      rcases hadds.undone_or_outdated hturn with ⟨more, hmore, hnone⟩ | houtdated
      · rw [hmore, latest_append_of_forall hnone]
        exact hnewest.imp_right fun h => h.imp (fun h => h.append hnone) (fun h => h.append more)
      · exact .inr (.inr houtdated)
    · have hburies := hspares.imp fun t h heq => Exchange.buries_eq_false (h heq) p₀.id
      rcases hburies.undone_or_outdated hturn with ⟨more, hmore, hnone⟩ | houtdated
      · rw [hmore]
        rcases hburied hlive with hnot | hrevived | houtdated
        · refine .inl fun h => ?_
          rcases isBuried_append.1 h with h | ⟨t, ht, hdone⟩
          · exact hnot h
          · rw [hnone t ht] at hdone
            contradiction
        · exact .inr (.inl (hrevived.append hnone))
        · exact .inr (.inr (houtdated.append more))
      · exact .inr (.inr houtdated)

/-- Entries that come after the policies add their versions. -/
theorem versionsOf_append {m : Memory} (hm : Holds m h) (hp : .policy p ∈ h.policies)
    (hid : changed.id = p.id) {entries : List PolicyEntry}
    (hpolicies : h'.policies = h.replacePolicy changed ++ entries) (policyId : String) :
    h'.versionsOf policyId =
      h.versionsOf policyId ++ entries.filterMap (PolicyEntry.versionOf? policyId) := by
  rw [Holdings.versionsOf, hpolicies, List.filterMap_append, hm.versionsOf_replacePolicy hp hid]

theorem versionsOf_isPrefix {m : Memory} (hm : Holds m h) (hp : .policy p ∈ h.policies)
    (hid : changed.id = p.id) {entries : List PolicyEntry}
    (hpolicies : h'.policies = h.replacePolicy changed ++ entries) (policyId : String) :
    h.versionsOf policyId <+: h'.versionsOf policyId := by
  rw [versionsOf_append hm hp hid hpolicies]
  exact List.prefix_append _ _

/-- A turn that writes nothing on the shelf of policies leaves the policy as it was. -/
theorem Revised.quiet (hp : Revised p₀ c h p) (hkeeps : (c.state.after q reply).Keeps h')
    (hpolicies : h'.policies = h.policies) (hnone : Exchange.policyWrites ⟨q, reply⟩ = []) :
    Revised p₀ (c.after i q reply) h' p := by
  have hadds : ∀ t ∈ [(⟨i, ⟨q, reply⟩⟩ : Turn ι)], t.exchange.addsVersion = false :=
    List.forall_mem_singleton.2 (Exchange.addsVersion_eq_false hnone)
  have hburies : ∀ t ∈ [(⟨i, ⟨q, reply⟩⟩ : Turn ι)], t.exchange.buries p₀.id = false :=
    List.forall_mem_singleton.2 (Exchange.buries_eq_false hnone p₀.id)
  have hlatest : latest p₀ (c.after i q reply).turns = latest p₀ c.turns :=
    latest_append_of_forall hadds
  constructor
  · exact hkeeps
  · rw [Holdings.policy?, Holdings.filed?, hpolicies]
    exact hp.found
  · rw [hlatest, Holdings.versionsOf, hpolicies]
    exact hp.numbered
  · rw [hlatest]
    exact hp.current
  · rw [hlatest]
    exact fun hroom => (hp.newest hroom).imp_right fun h => h.append hadds
  · intro hburied
    rcases isBuried_append.1 hburied with h | ⟨t, ht, hdone⟩
    · exact (hp.buried h).imp_right fun h => h.append hburies
    · rw [hburies t ht] at hdone
      contradiction

/-- **The number after the one that was read is free only if nobody else has used it.** -/
theorem Revised.eq_latest (hp : Revised p₀ c h p) (hroom : latest p₀ c.turns + 1 < UInt32.size)
    {number : UInt32} (hle : number.toNat ≤ latest p₀ c.turns)
    (hfree : ∀ v, .version v ∈ h.policies → v.policyId = p₀.id → v.version ≠ number + 1) :
    number.toNat = latest p₀ c.turns ∧ (number + 1).toNat = latest p₀ c.turns + 1 := by
  have hsucc : (number + 1).toNat = number.toNat + 1 := by
    rw [UInt32.toNat_add, UInt32.toNat_one, Nat.mod_eq_of_lt]
    have hsize : UInt32.size = 2 ^ 32 := rfl
    omega
  have heq : number.toNat = latest p₀ c.turns := by
    by_contra hne
    -- it is one of the numbers from 1 to the last one, and so some version has it
    have hmem : (number + 1).toNat ∈ (h.versionsOf p₀.id).map fun v => v.version.toNat := by
      rw [hp.numbered (by omega), List.mem_range'_1]
      omega
    obtain ⟨v, hv, hnumber⟩ := List.mem_map.1 hmem
    obtain ⟨hv, howner⟩ := mem_versionsOf.1 hv
    exact hfree v hv howner (UInt32.toNat_inj.1 hnumber)
  omega

/-- A version that was added has a number that no other version of its policy had. -/
theorem Revised.version_ne (hp : Revised p₀ c h p) {s : State} (hs : s.Keeps h') {v : PolicyVersion}
    (hpolicies : h'.policies = h.replacePolicy changed ++ [.version v]) (hid : changed.id = p₀.id)
    (howner : v.policyId = p₀.id) {w : PolicyVersion} (hw : .version w ∈ h.policies)
    (hwowner : w.policyId = p₀.id) : w.version ≠ v.version := by
  intro hnumber
  obtain ⟨hpmem, hpid⟩ := hp.keeps.holds.policy?_eq_some.1 hp.found
  have hkept := hp.keeps.holds.version_mem_replacePolicy hpmem (hid.trans hpid.symm) hw
  have hv : .version v ∈ h'.policies := by simp [hpolicies]
  have hids := hs.holds.nodup_policies
  rw [hpolicies, List.map_append, List.nodup_append] at hids
  -- of one policy and with one number they would be under one id
  have heq : w.id = v.id := by
    rw [hp.keeps.sound.versionId w hw, hs.sound.versionId v hv, hwowner, howner, hnumber]
  exact hids.2.2 w.id (List.mem_map.2 ⟨_, hkept, rfl⟩) v.id (by simp [PolicyEntry.id]) heq

/-- A call that adds no version points to the one that it has read, which others may have outdated. -/
theorem Revised.counts_of_kept {pr : Policy} {z : Exchange effects} (hp : Revised p₀ c h p)
    (hread : Recalls p₀ i pr c) (hrevises : z.revises p₀.id = true) (hadds : z.addsVersion = false)
    (hroom : latest p₀ (c.turns ++ [⟨i, z⟩]) < UInt32.size) :
    Counts p₀ (c.turns ++ [⟨i, z⟩]) (h.versionsOf p₀.id) pr.currentVersion := by
  obtain ⟨x, hx, -, hlatest, -⟩ := hread.reading
  have hquiet : ∀ t ∈ [(⟨i, z⟩ : Turn ι)], t.exchange.addsVersion = false :=
    List.forall_mem_singleton.2 hadds
  have hsame : latest p₀ (c.turns ++ [⟨i, z⟩]) = latest p₀ c.turns := latest_append_of_forall hquiet
  rw [hsame] at hroom
  obtain ⟨hbounds, hnewest⟩ := hlatest hroom
  refine ⟨?_, ?_, ?_⟩
  · rw [hsame]
    exact hp.numbered hroom
  · rw [hsame]
    exact hbounds
  · rw [hsame]
    rcases hnewest with heq | hbehind | houtdated
    · exact .inl heq
    · exact .inr (hbehind.append hquiet)
    · exact .inr (houtdated.overwritten hx ⟨hrevises, hadds⟩)

/-- A call that adds a version has read the last one, and the version that it adds is the next. -/
theorem Revised.counts_of_added {pr : Policy} {z : Exchange effects} {v : PolicyVersion}
    (hp : Revised p₀ c h p) (hread : Recalls p₀ i pr c) (hversion : v.version = pr.currentVersion + 1)
    (hfree : ∀ w, .version w ∈ h.policies → w.policyId = p₀.id → w.version ≠ v.version)
    (hadds : z.addsVersion = true) (hroom : latest p₀ (c.turns ++ [⟨i, z⟩]) < UInt32.size) :
    Counts p₀ (c.turns ++ [⟨i, z⟩]) (h.versionsOf p₀.id ++ [v]) v.version := by
  obtain ⟨x, -, -, hlatest, -⟩ := hread.reading
  have hone : latest p₀ (c.turns ++ [⟨i, z⟩]) = latest p₀ c.turns + 1 := by
    rw [latest_append]
    simp [hadds]
  rw [hone] at hroom
  obtain ⟨⟨hpos, hbound⟩, -⟩ := hlatest (by omega)
  rw [hversion] at hfree
  obtain ⟨-, hnumber⟩ := hp.eq_latest hroom hbound hfree
  have hlast : v.version.toNat = latest p₀ c.turns + 1 := by rw [hversion, hnumber]
  refine ⟨?_, ?_, ?_⟩
  · rw [hone, List.map_append, hp.numbered (by omega), List.range'_concat]
    simp [hlast, Nat.add_comm]
  · rw [hone]
    omega
  · exact .inl (hlast.trans hone.symm)

/-- A call that has read a policy alive and does not mark it may revive it, if another one has marked it. -/
theorem Recalls.isRevived {pr : Policy} {z : Exchange effects} (hread : Recalls p₀ i pr c)
    (hlive : pr.deleted = false) (hrevises : z.revises p₀.id = true) (hburies : z.buries p₀.id = false)
    (hburied : IsBuried p₀ (c.turns ++ [⟨i, z⟩])) : IsRevived p₀.id (c.turns ++ [⟨i, z⟩]) := by
  obtain ⟨x, hx, -, -, hbefore⟩ := hread.reading
  have hquiet : ∀ t ∈ [(⟨i, z⟩ : Turn ι)], t.exchange.buries p₀.id = false :=
    List.forall_mem_singleton.2 hburies
  rcases isBuried_append.1 hburied with hburied | ⟨t, ht, hdone⟩
  · rcases hbefore hlive with hnot | hrevived | houtdated
    · exact absurd hburied hnot
    · exact hrevived.append hquiet
    · exact houtdated.overwritten hx ⟨hrevises, hburies⟩
  · rw [hquiet t ht] at hdone
    contradiction

/-- **A call that writes what it has made of its reading** either had seen everything or overwrites it. -/
theorem Revised.revise {pr : Policy} (next? : Option PolicyVersion) (hp : Revised p₀ c h p)
    (hread : Recalls p₀ i pr c) (hlive : pr.deleted = false) (hkeeps : (c.state.after q reply).Keeps h')
    (hpolicies : h'.policies = h.replacePolicy changed ++ next?.toList.map PolicyEntry.version)
    (hid : changed.id = p₀.id)
    (hcurrent : changed.currentVersion = (next?.map PolicyVersion.version).getD pr.currentVersion)
    (hnext : ∀ v, next? = some v → v.policyId = p₀.id ∧ v.version = pr.currentVersion + 1)
    (hrevises : Exchange.revises p₀.id ⟨q, reply⟩ = true)
    (hadds : Exchange.addsVersion ⟨q, reply⟩ = next?.isSome)
    (hburies : Exchange.buries p₀.id ⟨q, reply⟩ = changed.deleted) :
    Revised p₀ (c.after i q reply) h' changed := by
  obtain ⟨hpmem, hpid⟩ := hp.keeps.holds.policy?_eq_some.1 hp.found
  have hreplaced : changed.id = p.id := hid.trans hpid.symm
  have hmem : .policy changed ∈ h'.policies := by
    rw [hpolicies]
    exact List.mem_append_left _ (List.mem_map.2 ⟨_, hpmem, if_pos hreplaced.symm⟩)
  have hversions := versionsOf_append hp.keeps.holds hpmem hreplaced hpolicies p₀.id
  have hcounts : latest p₀ (c.after i q reply).turns < UInt32.size →
      Counts p₀ (c.after i q reply).turns (h'.versionsOf p₀.id) changed.currentVersion := by
    intro hroom
    rw [hcurrent, hversions]
    cases next? with
    | none => simpa using hp.counts_of_kept hread hrevises hadds hroom
    | some v =>
      obtain ⟨howner, hversion⟩ := hnext v rfl
      have hfree : ∀ w, .version w ∈ h.policies → w.policyId = p₀.id → w.version ≠ v.version :=
        fun w hw hwowner => hp.version_ne hkeeps hpolicies hid howner hw hwowner
      rw [Option.toList_some, List.map_singleton, PolicyEntry.filterMap_version, if_pos howner]
      exact hp.counts_of_added hread hversion hfree hadds hroom
  refine ⟨hkeeps, ?_, fun h => (hcounts h).numbered, fun h => (hcounts h).among,
    fun h => (hcounts h).newest, fun hburied => ?_⟩
  · exact hkeeps.holds.policy?_eq_some.2 ⟨hmem, hid⟩
  · cases hdeleted : changed.deleted with
    | true => exact .inl rfl
    | false => exact .inr (hread.isRevived hlive hrevises (hburies.trans hdeleted) hburied)

end Turns

end Policy
end Gatehouse
