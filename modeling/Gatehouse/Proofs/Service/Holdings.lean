import Gatehouse.Proofs.Service.Reading
import Gatehouse.Proofs.Service.Surroundings
import Gatehouse.Proofs.Store.Memory
import Gatehouse.Proofs.Text.Digits

/-!
# What the service holds

The store keeps documents; the service means policies, groups, assignments and records of evaluations.
`Holdings` are these things themselves, in the order in which they were first stored, and `Holds` says
that a store keeps the documents of holdings and nothing else under the names of the service.

1. **Soundness** (`IsSound`): what is true of all holdings that the service ever has.  Ids of policies
   and of evaluations were given as fresh ids; a version has the id of its number and the policy that
   it names; times were shown by the clock; a record passes if all of its children do.
2. **Keeping** (`State.Keeps`): the state's store holds sound holdings.  This is the invariant of the
   service.  Everything below it is a statement about `Holdings`, without JSON and without turns.
-/

namespace Gatehouse.Service

open Store

/-! ## Holdings -/

/-- What the shelf of policies holds: a policy or a version of one. -/
inductive PolicyEntry where
  | policy (p : Policy)
  | version (v : PolicyVersion)
  deriving DecidableEq

namespace PolicyEntry

/-- The document of an entry. -/
def document : PolicyEntry → Document
  | policy p => p.document
  | version v => Policy.versionDocument v

/-- The id of an entry. -/
def id : PolicyEntry → String
  | policy p => p.id
  | version v => v.id

theorem document_id (e : PolicyEntry) : e.document.id = e.id := by
  cases e <;> rfl

end PolicyEntry

end Service

/-- The documents of a record: the parent and then its children. -/
def EvaluationRecord.documents (r : EvaluationRecord) : List Store.Document :=
  document r.resourceEvaluation :: r.policyEvaluations.map childDocument

namespace Service

open Store

/-- Everything that the service keeps. -/
structure Holdings where
  policies : List PolicyEntry
  groups : List PolicyGroup
  assignments : List PolicyAssignment
  records : List EvaluationRecord

namespace Holdings

/-- Nothing is kept. -/
def empty : Holdings := ⟨[], [], [], []⟩

/-- The documents of a shelf. -/
def documents (h : Holdings) : Shelf → List Document
  | .policies => h.policies.map PolicyEntry.document
  | .policyGroups => h.groups.map PolicyGroup.document
  | .policyAssignments => h.assignments.map PolicyAssignment.document
  | .evaluations => h.records.flatMap EvaluationRecord.documents

/-- The entry of an id. -/
def filed? (h : Holdings) (id : String) : Option PolicyEntry := h.policies.find? fun e => e.id = id

/-- The policy of an id. -/
def policy? (h : Holdings) (id : String) : Option Policy :=
  match h.filed? id with
  | some (.policy p) => some p
  | _ => none

/-- The version of an id. -/
def version? (h : Holdings) (id : String) : Option PolicyVersion :=
  match h.filed? id with
  | some (.version v) => some v
  | _ => none

/-- The group of a name. -/
def group? (h : Holdings) (name : String) : Option PolicyGroup := h.groups.find? fun g => g.name = name

/-- The assignment of an id. -/
def assignment? (h : Holdings) (id : String) : Option PolicyAssignment :=
  h.assignments.find? fun a => a.id = id

end Holdings

/-- The store keeps the documents of holdings. -/
structure Holds (m : Memory) (h : Holdings) : Prop where
  ordered : m.IsOrdered
  documents : ∀ shelf : Shelf, m.documents shelf.index = h.documents shelf

/-! ## Soundness -/

/-- What is true of a record that is kept. -/
structure RecordIsSound (s : State) (r : EvaluationRecord) : Prop where
  id : r.resourceEvaluation.id ∈ s.given
  time : r.resourceEvaluation.created ∈ s.times
  resource : r.resourceEvaluation.resourceVersion.created? = none
  childId : ∀ c ∈ r.policyEvaluations, c.id ∈ s.given
  childTime : ∀ c ∈ r.policyEvaluations, c.created ∈ s.times
  parent : ∀ c ∈ r.policyEvaluations, c.resourceEvaluationId = r.resourceEvaluation.id
  pass : r.resourceEvaluation.pass = r.policyEvaluations.all PolicyEvaluation.pass

/-- What is true of everything that is kept. -/
structure Holdings.IsSound (h : Holdings) (s : State) : Prop where
  /-- Policies are kept without a version beside them, under ids that were given. -/
  bare : ∀ p, .policy p ∈ h.policies → p.version? = none
  policyId : ∀ p, .policy p ∈ h.policies → p.id ∈ s.given
  policyTimes : ∀ p, .policy p ∈ h.policies → p.created ∈ s.times ∧ p.updated ∈ s.times
  versionId : ∀ v, .version v ∈ h.policies → v.id = Policy.versionId v.policyId v.version
  versionTime : ∀ v, .version v ∈ h.policies → v.created ∈ s.times
  owned : ∀ v, .version v ∈ h.policies → ∃ p, .policy p ∈ h.policies ∧ p.id = v.policyId
  groupTimes : ∀ g ∈ h.groups, g.created ∈ s.times ∧ g.updated ∈ s.times
  assignmentTimes : ∀ a ∈ h.assignments, a.created ∈ s.times ∧ a.updated ∈ s.times
  records : ∀ r ∈ h.records, RecordIsSound s r

/-- **The invariant of the service**: the store holds sound holdings. -/
structure State.Keeps (s : State) (h : Holdings) : Prop where
  honest : s.IsHonest
  holds : Holds s.memory h
  sound : h.IsSound s

/-! ## Keeping -/

theorem RecordIsSound.mono {s t : State} {r : EvaluationRecord} (hr : RecordIsSound s r)
    (hlog : s.log <+: t.log) : RecordIsSound t r :=
  have hgiven := State.given_subset hlog
  have htimes := State.times_subset hlog
  ⟨hgiven hr.id, htimes hr.time, hr.resource, fun c hc => hgiven (hr.childId c hc),
    fun c hc => htimes (hr.childTime c hc), hr.parent, hr.pass⟩

/-- What is sound stays so while nothing is done to it. -/
theorem Holdings.IsSound.mono {s t : State} {h : Holdings} (hh : h.IsSound s)
    (hlog : s.log <+: t.log) : h.IsSound t :=
  have hgiven := State.given_subset hlog
  have htimes := State.times_subset hlog
  { hh with
    policyId := fun p hp => hgiven (hh.policyId p hp)
    policyTimes := fun p hp => ⟨htimes (hh.policyTimes p hp).1, htimes (hh.policyTimes p hp).2⟩
    versionTime := fun v hv => htimes (hh.versionTime v hv)
    groupTimes := fun g hg => ⟨htimes (hh.groupTimes g hg).1, htimes (hh.groupTimes g hg).2⟩
    assignmentTimes := fun a ha =>
      ⟨htimes (hh.assignmentTimes a ha).1, htimes (hh.assignmentTimes a ha).2⟩
    records := fun r hr => (hh.records r hr).mono hlog }

/-- A call that changes nothing in the store keeps what is kept. -/
theorem State.Keeps.of_memory_eq {α : Type} {a : Action α} {s t : State} {r : Except ServiceError α}
    {h : Holdings} (hs : s.Keeps h) (he : Ends surroundings a s r t) (hm : t.memory = s.memory) :
    t.Keeps h :=
  ⟨he.honest hs.honest, hm ▸ hs.holds, hs.sound.mono he.log_isPrefix⟩

/-- A reply that changes nothing in the store keeps what is kept. -/
theorem State.Keeps.after {s : State} {h : Holdings} (hs : s.Keeps h) {q : Request} {reply : q.Reply}
    (hq : s.allows q reply) (hread : q.isWrite = false) : (s.after q reply).Keeps h where
  honest := hs.honest.after hq
  holds := by
    rw [State.after_memory_of_not_isWrite hread]
    exact hs.holds
  sound := hs.sound.mono (List.prefix_append _ _)

theorem State.keeps_initial : State.initial.Keeps Holdings.empty where
  honest := ⟨fun _ h => absurd h List.not_mem_nil, fun _ h => absurd h List.not_mem_nil⟩
  holds := ⟨Memory.isOrdered_empty, fun shelf => by
    cases shelf <;> exact Memory.documents_empty _⟩
  sound := by constructor <;> intro _ h <;> exact absurd h List.not_mem_nil

/-! ## Looking things up -/

section Lookup

variable {s : State} {h : Holdings} {id : String}

theorem Holds.nodup_policies {m : Memory} (hm : Holds m h) : (h.policies.map PolicyEntry.id).Nodup := by
  have hids := hm.ordered.nodup_ids Shelf.policies.index
  rw [hm.documents, Holdings.documents, List.map_map] at hids
  simpa only [Function.comp_def, PolicyEntry.document_id] using hids

theorem Holds.filed?_eq_some {m : Memory} (hm : Holds m h) (id : String) (e : PolicyEntry) :
    h.filed? id = some e ↔ e ∈ h.policies ∧ e.id = id := by
  constructor
  · intro he
    exact ⟨List.mem_of_find?_eq_some he, by simpa using List.find?_some he⟩
  · rintro ⟨he, rfl⟩
    obtain ⟨f, hf⟩ : ∃ f, h.filed? e.id = some f :=
      Option.isSome_iff_exists.1 (List.find?_isSome.2 ⟨e, he, by simp⟩)
    have hid : f.id = e.id := by simpa using List.find?_some hf
    rw [hf, List.inj_on_of_nodup_map hm.nodup_policies (List.mem_of_find?_eq_some hf) he hid]

theorem Holds.policy?_eq_some {m : Memory} (hm : Holds m h) {p : Policy} :
    h.policy? id = some p ↔ .policy p ∈ h.policies ∧ p.id = id := by
  have he := hm.filed?_eq_some id (.policy p)
  rw [← show PolicyEntry.id (.policy p) = p.id from rfl, ← he, Holdings.policy?]
  split <;> simp_all

theorem Holds.version?_eq_some {m : Memory} (hm : Holds m h) {v : PolicyVersion} :
    h.version? id = some v ↔ .version v ∈ h.policies ∧ v.id = id := by
  have he := hm.filed?_eq_some id (.version v)
  rw [← show PolicyEntry.id (.version v) = v.id from rfl, ← he, Holdings.version?]
  split <;> simp_all

/-- A version is found under its own id. -/
theorem Holds.version?_id {m : Memory} (hm : Holds m h) {v : PolicyVersion} (hv : h.version? id = some v) :
    h.version? v.id = some v := by
  rw [(hm.version?_eq_some.1 hv).2, hv]

theorem Holdings.group?_eq_some_imp {g : PolicyGroup} {name : String} (hg : h.group? name = some g) :
    g ∈ h.groups ∧ g.name = name :=
  ⟨List.mem_of_find?_eq_some hg, by simpa using List.find?_some hg⟩

theorem Holdings.assignment?_eq_some_imp {a : PolicyAssignment} (ha : h.assignment? id = some a) :
    a ∈ h.assignments ∧ a.id = id :=
  ⟨List.mem_of_find?_eq_some ha, by simpa using List.find?_some ha⟩

end Lookup

/-! ## Writing -/

/-- Documents are the same on the shelves whose things are the same. -/
theorem Holdings.documents_frame {h h' : Holdings} {shelf : Shelf}
    (hpolicies : shelf = .policies ∨ h'.policies = h.policies)
    (hgroups : shelf = .policyGroups ∨ h'.groups = h.groups)
    (hassignments : shelf = .policyAssignments ∨ h'.assignments = h.assignments)
    (hrecords : shelf = .evaluations ∨ h'.records = h.records) :
    ∀ other, other ≠ shelf → h'.documents other = h.documents other := by
  intro other hne
  cases other with
  | policies => simp only [documents, hpolicies.resolve_left hne.symm]
  | policyGroups => simp only [documents, hgroups.resolve_left hne.symm]
  | policyAssignments => simp only [documents, hassignments.resolve_left hne.symm]
  | evaluations => simp only [documents, hrecords.resolve_left hne.symm]

theorem Shelf.index_injective {a b : Shelf} (h : a.index = b.index) : a = b := by
  revert h
  cases a <;> cases b <;> decide

section Writing

variable {m : Memory} {h : Holdings} {shelf : Shelf}

/-- A store in which one shelf is another one holds what has this shelf and the others as before. -/
theorem Holds.of_becomes (hm : Holds m h) {h' : Holdings} {later : Memory}
    (hlater : m.Becomes shelf.index (h'.documents shelf) later)
    (helse : ∀ other, other ≠ shelf → h'.documents other = h.documents other) : Holds later h' where
  ordered := hlater.ordered
  documents other := by
    by_cases heq : other = shelf
    · rw [heq, hlater.here]
    · rw [hlater.elsewhere _ fun h => heq (Shelf.index_injective h), hm.documents, helse other heq]

theorem Holds.perform_bulk (hm : Holds m h) (h' : Holdings) {ws : List Write}
    (hws : Write.changeAll? ws (h.documents shelf) = some (h'.documents shelf))
    (helse : ∀ other, other ≠ shelf → h'.documents other = h.documents other) :
    (Memory.perform (.bulk shelf.index ws) m).1 = .ok () ∧
      Holds (Memory.perform (.bulk shelf.index ws) m).2 h' := by
  rw [← hm.documents] at hws
  obtain ⟨later, hbulk, hlater⟩ := hm.ordered.bulk_of_some hws
  simp only [Memory.perform, hbulk, Memory.commit]
  exact ⟨trivial, hm.of_becomes hlater helse⟩

/-- New documents under ids of their own can be created in one bulk. -/
theorem Holds.changeAll?_create (hm : Holds m h) (shelf : Shelf) (new : List Document)
    (hnew : (new.map Document.id).Nodup) (hfree : ∀ d ∈ h.documents shelf, ∀ n ∈ new, d.id ≠ n.id) :
    Write.changeAll? (new.map Write.create) (h.documents shelf) = some (h.documents shelf ++ new) := by
  refine Write.changeAll?_create ?_
  rw [List.map_append, List.nodup_append]
  have hold := hm.ordered.nodup_ids shelf.index
  rw [hm.documents] at hold
  refine ⟨hold, hnew, fun i hi j hj => ?_⟩
  obtain ⟨d, hd, rfl⟩ := List.mem_map.1 hi
  obtain ⟨n, hn, rfl⟩ := List.mem_map.1 hj
  exact hfree d hd n hn

/-- A bulk that succeeds was one whose changes fit. -/
theorem Holds.changeAll?_of_perform (hm : Holds m h) {ws : List Write}
    (hws : (Memory.perform (.bulk shelf.index ws) m).1 = .ok ()) :
    ∃ ds, Write.changeAll? ws (h.documents shelf) = some ds := by
  rw [← hm.documents]
  cases hchange : Write.changeAll? ws (m.documents shelf.index) with
  | some ds => exact ⟨ds, rfl⟩
  | none =>
    obtain ⟨e, hbulk⟩ := hm.ordered.bulk_of_none hchange
    rw [Memory.perform, hbulk] at hws
    contradiction

/-- A bulk that succeeds has made its changes. -/
theorem Holds.of_perform_bulk (hm : Holds m h) (h' : Holdings) {ws : List Write}
    (hws : (Memory.perform (.bulk shelf.index ws) m).1 = .ok ())
    (hchange : ws.foldl (fun ds w => w.change ds) (h.documents shelf) = h'.documents shelf)
    (helse : ∀ other, other ≠ shelf → h'.documents other = h.documents other) :
    Holds (Memory.perform (.bulk shelf.index ws) m).2 h' := by
  obtain ⟨ds, hds⟩ := hm.changeAll?_of_perform hws
  rw [Write.eq_foldl_of_changeAll? hds, hchange] at hds
  exact (hm.perform_bulk h' hds helse).2

/-- A document can be created if nothing is found under its key, where keys are ids. -/
theorem fits_create_map {α : Type} {write : α → Document} {key : α → String}
    (hkey : ∀ a, (write a).id = key a) {as : List α} {a : α} :
    (Write.create (write a)).Fits (as.map write) ↔ as.find? (fun x => key x = key a) = none := by
  rw [List.find?_eq_none]
  constructor
  · intro hfits x hx
    have hne : (write x).id ≠ (write a).id := hfits _ (List.mem_map.2 ⟨x, hx, rfl⟩)
    simpa [hkey] using hne
  · intro hfree d hd
    obtain ⟨x, hx, rfl⟩ := List.mem_map.1 hd
    have hne : ¬ key x = key a := by simpa using hfree x hx
    rwa [hkey, hkey]

theorem Holds.perform_write (hm : Holds m h) (h' : Holdings) {w : Write} (hw : w.Fits (h.documents shelf))
    (hchange : w.change (h.documents shelf) = h'.documents shelf)
    (helse : ∀ other, other ≠ shelf → h'.documents other = h.documents other) :
    (Memory.perform (.write shelf.index w) m).1 = .ok () ∧
      Holds (Memory.perform (.write shelf.index w) m).2 h' := by
  rw [← hm.documents] at hw hchange
  obtain ⟨later, hwrite, hlater⟩ := hm.ordered.write_of_fits hw
  rw [hchange] at hlater
  simp only [Memory.perform, hwrite, Memory.commit]
  exact ⟨trivial, hm.of_becomes hlater helse⟩

theorem Holds.perform_write_refused (hm : Holds m h) {w : Write} (hw : ¬ w.Fits (h.documents shelf)) :
    Memory.perform (.write shelf.index w) m = (.error (w.refusal shelf.index), m) := by
  rw [← hm.documents] at hw
  simp only [Memory.perform, hm.ordered.write_of_not_fits hw, Memory.commit]

/-- A write is made, or refused for the one reason. -/
theorem Holds.reply_write (hm : Holds m h) (shelf : Shelf) (w : Write) :
    (Memory.perform (.write shelf.index w) m).1 = .ok () ∨
      (Memory.perform (.write shelf.index w) m).1 = .error (w.refusal shelf.index) := by
  by_cases hw : w.Fits (h.documents shelf)
  · rw [← hm.documents] at hw
    obtain ⟨later, hwrite, -⟩ := hm.ordered.write_of_fits hw
    simp only [Memory.perform, hwrite, Memory.commit, true_or]
  · rw [hm.perform_write_refused hw]
    exact .inr rfl

/-- A write that succeeds was one that fits. -/
theorem Holds.fits_of_perform (hm : Holds m h) {w : Write}
    (hw : (Memory.perform (.write shelf.index w) m).1 = .ok ()) : w.Fits (h.documents shelf) := by
  by_contra hnot
  rw [hm.perform_write_refused hnot] at hw
  contradiction

end Writing
end Service
end Gatehouse
