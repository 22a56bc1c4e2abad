import Gatehouse.Proofs.Service.Holdings
import Gatehouse.Proofs.Service.Restraint

/-!
# Looking things up

What the reading actions of the service answer in a state that keeps holdings: exactly the things that
are held.  No reading fails because of what the store holds, since every document reads back as the
thing that wrote it.

Each lemma is an equivalence, so it serves in both directions: to take a run of a longer action apart,
and to show that there is one.
-/

namespace Gatehouse

open Service

/-! ## What is stored -/

namespace Store.Memory

/-- The policy that is stored under an id. -/
def policy? (m : Memory) (id : String) : Option Policy :=
  (m.get? Shelf.policies.index id).bind fun d =>
    if d.relation? = some Policy.relation then Policy.ofJson? d.source else none

/-- The version that is stored under an id. -/
def version? (m : Memory) (id : String) : Option PolicyVersion :=
  (m.get? Shelf.policies.index id).bind fun d =>
    if d.relation? = some Policy.versionRelation then PolicyVersion.ofJson? d.source else none

/-- The group that is stored under a name, deleted or not. -/
def group? (m : Memory) (name : String) : Option PolicyGroup :=
  (m.get? Shelf.policyGroups.index name).bind fun d => PolicyGroup.ofJson? d.source

/-- The assignments that are stored, in the order in which they were made. -/
def assignments (m : Memory) : List PolicyAssignment :=
  (m.documents Shelf.policyAssignments.index).filterMap fun d => PolicyAssignment.ofJson? d.source

end Store.Memory

namespace Policy

/-- The policy that the id of a policy, or of a version of one, belongs to. -/
def ownerId (id : String) : String := ((ofVersionId? id).map Prod.fst).getD id

/-- The version of a policy that an id asks for: the one that it names, or the current one. -/
def wantedId (id : String) (p : Policy) : String :=
  versionId (ownerId id) (((ofVersionId? id).map Prod.snd).getD p.currentVersion)

end Policy

namespace Service

open Store

/-! ## Documents read back -/

/-- A document that reads back is decoded without asking anyone. -/
theorem decoded_of {α : Type} {what : Item} {read : Json → Option α} {d : Document} {a : α}
    (h : read d.source = some a) : decoded what read d = pure a := by
  simp only [decoded, h]

/-- Actions one after the other of which each is known to do nothing but return something. -/
theorem mapM_map_of {α β γ : Type} {f : β → Action γ} {g : α → β} {k : α → γ} {as : List α}
    (h : ∀ a ∈ as, f (g a) = pure (k a)) : (as.map g).mapM f = pure (as.map k) := by
  induction as with
  | nil => rfl
  | cons a as ih =>
    rw [List.map_cons, List.mapM_cons, h a List.mem_cons_self,
      ih fun b hb => h b (List.mem_cons_of_mem a hb)]
    simp

/-- Documents of records that read back are decoded to these records. -/
theorem mapM_decoded {α : Type} {what : Item} {read : Json → Option α} {write : α → Document}
    {as : List α} (h : ∀ a ∈ as, read (write a).source = some a) :
    (as.map write).mapM (decoded what read) = pure as := by
  have hpure : ∀ a ∈ as, decoded what read (write a) = pure a := fun a ha => decoded_of (h a ha)
  rw [mapM_map_of hpure, List.map_id']

/-- What documents write that read back. -/
theorem filterMap_read {α : Type} {read : Json → Option α} {write : α → Document} {as : List α}
    (h : ∀ a ∈ as, read (write a).source = some a) :
    (as.map write).filterMap (fun d => read d.source) = as := by
  rw [List.filterMap_map]
  conv_rhs => rw [← List.filterMap_some (l := as)]
  exact List.filterMap_congr h

namespace State.Keeps

variable {s : State} {h : Holdings}

theorem read_policy (hs : s.Keeps h) {p : Policy} (hp : .policy p ∈ h.policies) :
    Policy.ofJson? p.document.source = some p := by
  have hbare := hs.sound.bare p hp
  have htimes := hs.sound.policyTimes p hp
  have hdocument : p.document.source = p.toJson := by
    rw [Policy.document, ← hbare]
  rw [hdocument]
  exact Policy.ofJson?_toJson
    ⟨hs.honest.kept _ htimes.1, hs.honest.kept _ htimes.2, fun v hv => by rw [hbare] at hv; contradiction⟩

theorem read_version (hs : s.Keeps h) {v : PolicyVersion} (hv : .version v ∈ h.policies) :
    PolicyVersion.ofJson? (Policy.versionDocument v).source = some v :=
  PolicyVersion.ofJson?_toJson (hs.honest.kept _ (hs.sound.versionTime v hv))

theorem read_group (hs : s.Keeps h) {g : PolicyGroup} (hg : g ∈ h.groups) :
    PolicyGroup.ofJson? g.document.source = some g :=
  have htimes := hs.sound.groupTimes g hg
  PolicyGroup.ofJson?_toJson ⟨hs.honest.kept _ htimes.1, hs.honest.kept _ htimes.2⟩

theorem read_assignment (hs : s.Keeps h) {a : PolicyAssignment} (ha : a ∈ h.assignments) :
    PolicyAssignment.ofJson? a.document.source = some a :=
  have htimes := hs.sound.assignmentTimes a ha
  PolicyAssignment.ofJson?_toJson ⟨hs.honest.kept _ htimes.1, hs.honest.kept _ htimes.2⟩

/-! ## What the store answers to an id -/

theorem documents_policies (hs : s.Keeps h) :
    s.memory.documents Shelf.policies.index = h.policies.map PolicyEntry.document :=
  hs.holds.documents .policies

theorem documents_assignments (hs : s.Keeps h) :
    s.memory.documents Shelf.policyAssignments.index = h.assignments.map PolicyAssignment.document :=
  hs.holds.documents .policyAssignments

theorem documents_evaluations (hs : s.Keeps h) :
    s.memory.documents Shelf.evaluations.index = h.records.flatMap EvaluationRecord.documents :=
  hs.holds.documents .evaluations

theorem assignments_eq (hs : s.Keeps h) : s.memory.assignments = h.assignments := by
  rw [Memory.assignments, hs.documents_assignments]
  exact filterMap_read fun _ ha => hs.read_assignment ha

theorem get?_policies (hs : s.Keeps h) (id : String) :
    s.memory.get? Shelf.policies.index id = (h.filed? id).map PolicyEntry.document := by
  rw [hs.holds.ordered.get?_map hs.documents_policies]
  simp only [PolicyEntry.document_id, Holdings.filed?]

theorem get?_groups (hs : s.Keeps h) (name : String) :
    s.memory.get? Shelf.policyGroups.index name = (h.group? name).map PolicyGroup.document :=
  hs.holds.ordered.get?_map (hs.holds.documents .policyGroups) name

theorem group?_eq (hs : s.Keeps h) (name : String) : s.memory.group? name = h.group? name := by
  rw [Memory.group?, hs.get?_groups]
  cases hg : h.group? name with
  | none => rfl
  | some g =>
    rw [Option.map_some, Option.bind_some]
    exact hs.read_group (Holdings.group?_eq_some_imp hg).1

theorem get?_assignments (hs : s.Keeps h) (id : String) :
    s.memory.get? Shelf.policyAssignments.index id = (h.assignment? id).map PolicyAssignment.document :=
  hs.holds.ordered.get?_map hs.documents_assignments id

end State.Keeps

/-- What only reads keeps what is kept. -/
theorem Reads.keeps {α : Type} {a : Action α} (ha : Reads a) {s t : State} {h : Holdings}
    {r : Except ServiceError α} (he : Ends surroundings a s r t) (hs : s.Keeps h) : t.Keeps h :=
  hs.of_memory_eq he (ha.untouched he).memory

/-- The state after the document of an id was asked for. -/
def State.got (s : State) (shelf : Shelf) (id : String) : State :=
  s.after (.store (.get shelf.index id)) (.ok (s.memory.get? shelf.index id))

@[simp] theorem State.got_memory (s : State) (shelf : Shelf) (id : String) :
    (s.got shelf id).memory = s.memory := rfl

@[simp] theorem State.got_given (s : State) (shelf : Shelf) (id : String) :
    (s.got shelf id).given = s.given := State.given_after_of_ne (by simp) _

@[simp] theorem State.got_times (s : State) (shelf : Shelf) (id : String) :
    (s.got shelf id).times = s.times := State.times_after_of_ne (by simp) _

/-- An action that begins by asking for a document. -/
theorem ends_get {α : Type} {operation : String} {shelf : Shelf} {id : String}
    {f : Option Document → Action α} {s t : State} {r : Except ServiceError α} :
    Ends surroundings (call operation (.get shelf.index id) >>= f) s r t ↔
      Ends surroundings (f (s.memory.get? shelf.index id)) (s.got shelf id) r t :=
  ends_call_bind_of_ok rfl

/-! ## Policies -/

section Policies

variable {s t : State} {h : Holdings} {id : String}

theorem State.Keeps.policy?_eq (hs : s.Keeps h) : s.memory.policy? id = h.policy? id := by
  rw [Memory.policy?, hs.get?_policies, Holdings.policy?]
  cases he : h.filed? id with
  | none => rfl
  | some e =>
    have hmem := ((hs.holds.filed?_eq_some ..).1 he).1
    cases e with
    | policy p =>
      have hrelation : Document.relation? p.document = some Policy.relation := rfl
      simp only [Option.map_some, Option.bind_some, PolicyEntry.document, hrelation, if_true,
        hs.read_policy hmem]
    | version v =>
      have hrelation : ¬ Document.relation? (Policy.versionDocument v) = some Policy.relation := by
        show ¬ some Policy.versionRelation = some Policy.relation
        decide
      simp only [Option.map_some, Option.bind_some, PolicyEntry.document, hrelation, if_false]

theorem State.Keeps.version?_eq (hs : s.Keeps h) : s.memory.version? id = h.version? id := by
  rw [Memory.version?, hs.get?_policies, Holdings.version?]
  cases he : h.filed? id with
  | none => rfl
  | some e =>
    have hmem := ((hs.holds.filed?_eq_some ..).1 he).1
    cases e with
    | policy p =>
      have hrelation : ¬ Document.relation? p.document = some Policy.versionRelation := by
        show ¬ some Policy.relation = some Policy.versionRelation
        decide
      simp only [Option.map_some, Option.bind_some, PolicyEntry.document, hrelation, if_false]
    | version v =>
      have hrelation : Document.relation? (Policy.versionDocument v) = some Policy.versionRelation := rfl
      simp only [Option.map_some, Option.bind_some, PolicyEntry.document, hrelation, if_true,
        hs.read_version hmem]

theorem ends_find? (hs : s.Keeps h) {r : Except ServiceError (Option Policy)} :
    Ends surroundings (Policy.find? id) s r t ↔ r = .ok (h.policy? id) ∧ t = s.got .policies id := by
  rw [Policy.find?, ends_get, hs.get?_policies, Holdings.policy?]
  cases he : h.filed? id with
  | none => exact ends_pure
  | some e =>
    have hmem := ((hs.holds.filed?_eq_some ..).1 he).1
    cases e with
    | policy p =>
      have hrelation : Document.relation? p.document = some Policy.relation := rfl
      simp only [Option.map_some, PolicyEntry.document, hrelation, if_true,
        decoded_of (hs.read_policy hmem), pure_bind, ends_pure]
    | version v =>
      have hrelation : ¬ Document.relation? (Policy.versionDocument v) = some Policy.relation := by
        show ¬ some Policy.versionRelation = some Policy.relation
        decide
      simp only [Option.map_some, PolicyEntry.document, hrelation, if_false, ends_pure]

theorem ends_findVersion? (hs : s.Keeps h) {r : Except ServiceError (Option PolicyVersion)} :
    Ends surroundings (Policy.findVersion? id) s r t ↔
      r = .ok (h.version? id) ∧ t = s.got .policies id := by
  rw [Policy.findVersion?, ends_get, hs.get?_policies, Holdings.version?]
  cases he : h.filed? id with
  | none => exact ends_pure
  | some e =>
    have hmem := ((hs.holds.filed?_eq_some ..).1 he).1
    cases e with
    | policy p =>
      have hrelation : ¬ Document.relation? p.document = some Policy.versionRelation := by
        show ¬ some Policy.relation = some Policy.versionRelation
        decide
      simp only [Option.map_some, PolicyEntry.document, hrelation, if_false, ends_pure]
    | version v =>
      have hrelation : Document.relation? (Policy.versionDocument v) = some Policy.versionRelation := rfl
      simp only [Option.map_some, PolicyEntry.document, hrelation, if_true,
        decoded_of (hs.read_version hmem), pure_bind, ends_pure]

/-- An action that begins by asking for a version goes on with what is held. -/
theorem ends_findVersion?_bind (hs : s.Keeps h) {α : Type} {f : Option PolicyVersion → Action α}
    {r : Except ServiceError α} :
    Ends surroundings (Policy.findVersion? id >>= f) s r t ↔
      Ends surroundings (f (h.version? id)) (s.got .policies id) r t := by
  rw [ends_bind]
  simp only [ends_findVersion? hs]
  constructor
  · rintro (⟨found, m, ⟨hfound, rfl⟩, he⟩ | ⟨e, ⟨hfailed, -⟩, -⟩)
    · rwa [← Except.ok.inj hfound]
    · contradiction
  · intro he
    exact .inl ⟨_, _, ⟨rfl, rfl⟩, he⟩

theorem ends_require (hs : s.Keeps h) {r : Except ServiceError Policy} :
    Ends surroundings (Policy.require id) s r t ↔
      r = (h.policy? id).elim (.error (.notFound .policy id)) .ok ∧ t = s.got .policies id := by
  rw [Policy.require, ends_bind]
  simp only [ends_find? hs]
  cases h.policy? id with
  | none => simp
  | some p => simp

/-- A policy that was required is held. -/
theorem ends_require_ok (hs : s.Keeps h) {p : Policy} :
    Ends surroundings (Policy.require id) s (.ok p) t ↔
      h.policy? id = some p ∧ t = s.got .policies id := by
  rw [ends_require hs]
  cases h.policy? id with
  | none => simp
  | some q => simp [eq_comm]

/-- A policy is found with the version of it that is asked for. -/
theorem ends_getWithVersion_ok (hs : s.Keeps h) {p : Policy} {v : PolicyVersion} :
    Ends surroundings (Policy.getWithVersion id) s (.ok (p, v)) t ↔
      id.isEmpty = false ∧ h.policy? (Policy.ownerId id) = some p ∧
      h.version? (Policy.wantedId id p) = some v ∧
      t = (s.got .policies (Policy.ownerId id)).got .policies (Policy.wantedId id p) := by
  rw [Policy.getWithVersion, ends_ensure_bind_ok, Bool.not_eq_true_eq_eq_false, ends_bind_ok]
  refine and_congr_right fun _ => ?_
  constructor
  · rintro ⟨q, m, hrequire, he⟩
    obtain ⟨hq, rfl⟩ := (ends_require_ok hs).1 hrequire
    have hkept := (Policy.reads_require _).keeps hrequire hs
    have hwanted : Ends surroundings (Policy.findVersion? (Policy.wantedId id q) >>= _) _ (.ok (p, v)) t := he
    rw [ends_findVersion?_bind hkept] at hwanted
    cases hv : h.version? (Policy.wantedId id q) with
    | none =>
      rw [hv] at hwanted
      dsimp only at hwanted
      split at hwanted
      · exact absurd (ends_throw.1 hwanted).1 (by simp)
      · exact absurd (ends_throw.1 hwanted).1 (by simp)
    | some w =>
      rw [hv] at hwanted
      obtain ⟨hpair, rfl⟩ := ends_pure.1 hwanted
      obtain ⟨rfl, rfl⟩ := Prod.mk.inj (Except.ok.inj hpair)
      exact ⟨hq, hv, rfl⟩
  · rintro ⟨hp, hv, rfl⟩
    have hrequire := (ends_require_ok hs).2 ⟨hp, rfl⟩
    have hkept := (Policy.reads_require _).keeps hrequire hs
    refine ⟨p, _, hrequire, ends_bind_ok.2 ⟨some v, _, (ends_findVersion? hkept).2 ⟨?_, rfl⟩, ?_⟩⟩
    · rw [← hv]
      rfl
    · exact ends_pure.2 ⟨rfl, rfl⟩

end Policies

/-! ## Groups and assignments -/

section Groups

variable {s t : State} {h : Holdings} {name id : String}

theorem ends_group_ok (hs : s.Keeps h) {g : PolicyGroup} :
    Ends surroundings (PolicyGroup.get name) s (.ok g) t ↔
      name.isEmpty = false ∧ h.group? name = some g ∧ t = s.got .policyGroups name := by
  rw [PolicyGroup.get, ends_bind_ok]
  simp only [ends_ensure_ok, Bool.not_eq_eq_eq_not, Bool.not_true]
  constructor
  · rintro ⟨-, m, ⟨hname, rfl⟩, hrest⟩
    rw [ends_get, hs.get?_groups] at hrest
    cases hg : h.group? name with
    | none =>
      rw [hg] at hrest
      exact absurd (ends_throw.1 hrest).1 (by simp)
    | some found =>
      simp only [hg, Option.map_some, decoded_of (hs.read_group (Holdings.group?_eq_some_imp hg).1),
        ends_pure] at hrest
      obtain ⟨heq, rfl⟩ := hrest
      exact ⟨hname, by rw [Except.ok.inj heq], rfl⟩
  · rintro ⟨hname, hg, rfl⟩
    refine ⟨(), s, ⟨hname, rfl⟩, ?_⟩
    rw [ends_get, hs.get?_groups, hg]
    simp only [Option.map_some, decoded_of (hs.read_group (Holdings.group?_eq_some_imp hg).1), ends_pure,
      and_self]

theorem ends_getActive_ok (hs : s.Keeps h) {g : PolicyGroup} :
    Ends surroundings (PolicyGroup.getActive name) s (.ok g) t ↔
      name.isEmpty = false ∧ h.group? name = some g ∧ g.deleted = false ∧
        t = s.got .policyGroups name := by
  rw [PolicyGroup.getActive, ends_bind_ok]
  simp only [ends_group_ok hs, ends_bind_ok, ends_ensure_ok, ends_pure, Bool.not_eq_eq_eq_not,
    Bool.not_true]
  constructor
  · rintro ⟨found, m, ⟨hname, hg, rfl⟩, -, u, ⟨hactive, rfl⟩, heq, rfl⟩
    obtain rfl := Except.ok.inj heq
    exact ⟨hname, hg, hactive, rfl⟩
  · rintro ⟨hname, hg, hactive, rfl⟩
    exact ⟨g, _, ⟨hname, hg, rfl⟩, (), _, ⟨hactive, rfl⟩, rfl, rfl⟩

theorem ends_assignment_ok (hs : s.Keeps h) {a : PolicyAssignment} :
    Ends surroundings (PolicyAssignment.get id) s (.ok a) t ↔
      id.isEmpty = false ∧ h.assignment? id = some a ∧ t = s.got .policyAssignments id := by
  rw [PolicyAssignment.get, ends_bind_ok]
  simp only [ends_ensure_ok, Bool.not_eq_eq_eq_not, Bool.not_true]
  constructor
  · rintro ⟨-, m, ⟨hid, rfl⟩, hrest⟩
    rw [ends_get, hs.get?_assignments] at hrest
    cases ha : h.assignment? id with
    | none =>
      rw [ha] at hrest
      exact absurd (ends_throw.1 hrest).1 (by simp)
    | some found =>
      simp only [ha, Option.map_some,
        decoded_of (hs.read_assignment (Holdings.assignment?_eq_some_imp ha).1), ends_pure] at hrest
      obtain ⟨heq, rfl⟩ := hrest
      exact ⟨hid, by rw [Except.ok.inj heq], rfl⟩
  · rintro ⟨hid, ha, rfl⟩
    refine ⟨(), s, ⟨hid, rfl⟩, ?_⟩
    rw [ends_get, hs.get?_assignments, ha]
    simp only [Option.map_some, decoded_of (hs.read_assignment (Holdings.assignment?_eq_some_imp ha).1),
      ends_pure, and_self]

end Groups
end Service
end Gatehouse
