import Gatehouse.Proofs.Service.Progress
import Gatehouse.Proofs.Service.Traffic

/-!
# Calls on a network that answers

What is reached on a network could be nothing but failures.  Here calls of the service on its own are made
on a network, with replies under which they succeed.

1. **Calls** (`Peers.Reaches.make`).  A call is made when what it asks outside is conveyed; what keeps
   inside needs no exchange.
2. **Evaluations** (`Peers.Reaches.evaluatePolicy`).  A version that is held is evaluated in four exchanges
   of the service.
3. **The first network** (`First.peers`).  Its rule engine has nothing at first, accepts every policy, and
   says of every source that it does not pass.
-/

namespace Gatehouse.Service

open Store Http RuleEngine Text

/-! ## Calls -/

/-- What keeps inside is conveyed without any exchange. -/
theorem Peers.exists_quiet {p : Peers} {xs : List (Exchange effects)}
    (hxs : ∀ x ∈ xs, x.request.isOutward = false) :
    ∃ ys : List (Exchange effects × List (Exchange wire)),
      ys.map Prod.fst = xs ∧ ys.flatMap Prod.snd = [] ∧ ∀ y ∈ ys, p.Conveys y.1 y.2 := by
  refine ⟨xs.map fun x => (x, []), ?_, ?_, fun y hy => ?_⟩
  · rw [List.map_map]
    exact List.map_id xs
  · rw [List.flatMap_map, List.flatMap_eq_nil_iff]
    exact fun _ _ => rfl
  · obtain ⟨⟨q, reply⟩, hx, rfl⟩ := List.mem_map.1 hy
    have hq := hxs _ hx
    cases q <;> first | rfl | contradiction

/-- A call is made on a network when what it asks outside is conveyed. -/
theorem Peers.Reaches.make {p : Peers} {svc : Service} {s t : State} {before : List (Exchange wire)}
    (hs : p.Reaches svc (s.withWire before)) {caller : Access.Caller} {o : Operation}
    {r : Except ServiceError o.Result} (he : Ends surroundings (svc.perform caller o) s r t)
    {quiet asked : List (Exchange effects)} (hquiet : ∀ x ∈ quiet, x.request.isOutward = false)
    {calls : List (List (Exchange wire))} (hasked : List.Forall₂ p.Conveys asked calls)
    (hlog : t.log = s.log ++ quiet ++ asked) :
    p.Reaches svc (t.withWire (before ++ calls.flatten)) := by
  obtain ⟨ys, rfl, hnone, hys⟩ := Peers.exists_quiet (p := p) hquiet
  obtain ⟨hlength, hzip⟩ := List.forall₂_iff_zip.1 hasked
  have hlog' : t.log = s.log ++ (ys ++ asked.zip calls).map Prod.fst := by
    rw [hlog, List.map_append, List.map_fst_zip hlength.le, List.append_assoc]
  have hrun := hs.call (Peers.runs_perform.2 ⟨t, ys ++ asked.zip calls, ends_iff.1 he, hlog',
    List.forall_mem_append.2 ⟨hys, fun _ hy => hzip hy⟩, rfl⟩)
  rwa [List.flatMap_append, hnone, List.nil_append, List.flatMap_def,
    List.map_snd_zip hlength.ge] at hrun

/-- A call that evaluates nothing is made on a network without any exchange. -/
theorem Peers.Reaches.inward {p : Peers} {svc : Service} {s t : State} {before : List (Exchange wire)}
    (hs : p.Reaches svc (s.withWire before)) {caller : Access.Caller} {o : Operation}
    (ho : o.evaluates = false) {r : Except ServiceError o.Result}
    (he : Ends surroundings (svc.perform caller o) s r t) : p.Reaches svc (t.withWire before) := by
  have hinward : IsInward (svc.perform caller o) := Only.bind (only_liftM _) fun _ => isInward_action ho
  obtain ⟨xs, hlog, hxs⟩ := Only.log_eq hinward he
  simpa using hs.make he hxs .nil (by rw [hlog, List.append_nil])

/-! ## Evaluations -/

/-- A version that is held is evaluated on a network when the four questions about it are conveyed. -/
theorem Peers.Reaches.evaluatePolicy {p : Peers} {s : State} {h : Holdings} {before : List (Exchange wire)}
    (hn : p.Reaches lenient (s.withWire before)) (hs : s.Keeps h) {uri : String} (huri : uri ≠ "")
    (hknown : (Resource.ResourceUri.ofText? uri).isSome = true) {uuid : String} (huuid : Text.IsUuid uuid)
    {number : UInt32} {policy : Policy} (found : h.policy? uuid = some policy) {v : PolicyVersion}
    (version : h.version? (Policy.versionId uuid number) = some v)
    {builds related : Occurrence.ListResponse} {evaluation : Evaluation} {c₁ c₂ c₃ c₄ : List (Exchange wire)}
    (hbuilds : p.Conveys
      ⟨.listOccurrences (Resource.question (Resource.buildsOf uri)), .ok builds⟩ c₁)
    (hrelated : p.Conveys
      ⟨.listOccurrences (Resource.question
        (Resource.onAnyOf (Resource.relatives uri builds.occurrences))), .ok related⟩ c₂)
    (hload : p.Conveys ⟨.load (Policy.versionId uuid number) v.regoContent, .ok ()⟩ c₃)
    (hevaluate : p.Conveys ⟨.evaluate v.regoContent
      (.object [("occurrences", .array (related.occurrences.map Occurrence.toJson))]), .ok evaluation⟩ c₄) :
    ∃ t : State, p.Reaches lenient (t.withWire (before ++ c₁ ++ c₂ ++ c₃ ++ c₄)) ∧ t.Keeps h := by
  have hparts := Policy.ofVersionId?_versionId huuid.isEmpty_eq_false number
  have howner : Policy.ownerId (Policy.versionId uuid number) = uuid := by
    rw [Policy.ownerId, hparts]
    rfl
  have hwanted : Policy.wantedId (Policy.versionId uuid number) policy = Policy.versionId uuid number := by
    rw [Policy.wantedId, howner, hparts]
    rfl
  have hne : Policy.versionId uuid number ≠ "" := fun hempty =>
    absurd (hempty ▸ Policy.point_mem_versionId uuid number) (by simp)
  have hid : v.id = Policy.versionId uuid number := (hs.holds.version?_eq_some.1 version).2
  obtain ⟨r, t, looked, he, ht, hlooked, hlog⟩ := EvaluationRecord.evaluatePolicy_succeeds
    (q := ⟨Policy.versionId uuid number, uri⟩) hs hne huri hknown (howner.symm ▸ found)
    (hwanted.symm ▸ version) builds related evaluation
  have hcall := ends_administrator (o := .evaluatePolicy ⟨Policy.versionId uuid number, uri⟩) he
  rw [hid] at hlog
  have hreached := hn.make hcall hlooked
    (.cons hbuilds (.cons hrelated (.cons hload (.cons hevaluate .nil)))) hlog
  refine ⟨t, ?_, ht⟩
  simpa only [List.flatten_cons, List.flatten_nil, List.append_nil, List.append_assoc] using hreached

/-! ## The first network -/

namespace First

/-- An occurrence store and a rule engine. -/
def peers : Peers := ⟨⟨"http://rode:50051"⟩, ⟨"http://opa:8181", false⟩⟩

/-- The base of the rule engine. -/
def base : Url := ⟨"http", some { host := .name "opa", service? := some 8181 }, .segments [""], none, none⟩

theorem isBase : base.IsBase peers.engine.base :=
  ⟨by decide +kernel, .inl rfl, by decide +kernel, rfl, rfl⟩

/-- A peer that replies with a status to what only reads, and otherwise that all is well. -/
def replying (status : Nat) : List (Exchange wire) → Http.Request → Except String Response :=
  fun _ q => match q.verb with
    | .get => .ok ⟨status, "\x7b\x7d"⟩
    | _ => .ok ⟨200, "\x7b\x7d"⟩

/-- What is exchanged with it. -/
def talk {ε α : Type} (status : Nat) (c : Http.Client ε α) : List (Exchange wire) :=
  (c.run.run (peer (replying status)) []).2

theorem ends_talk {ε α : Type} {status : Nat} {c : Http.Client ε α} {a : α}
    (h : (c.run.run (peer (replying status)) []).1 = .ok a) : Ends anyPeer c [] (.ok a) (talk status c) :=
  h ▸ ends_peer (replying status) c []

/-- The questions for the occurrences of a resource. -/
def lookUp (filter : String) : Http.Client Occurrence.ListError Occurrence.ListResponse :=
  peers.occurrences.list (Resource.question filter)

def builds : String := Resource.buildsOf inquiry.resourceUri

def related : String := Resource.onAnyOf (Resource.relatives inquiry.resourceUri [])

theorem ends_builds : Ends anyPeer (lookUp builds) [] (.ok ⟨[], ""⟩) (talk 200 (lookUp builds)) :=
  ends_talk (by rfl)

theorem ends_related : Ends anyPeer (lookUp related) [] (.ok ⟨[], ""⟩) (talk 200 (lookUp related)) :=
  ends_talk (by rfl)

/-- A policy that is missing is put there. -/
theorem ends_load (number : UInt32) (hnumber : number = 1 ∨ number = 2) (rego : String) :
    Ends anyPeer (peers.engine.load (Policy.versionId id number) rego) [] (.ok ())
      (talk 404 (peers.engine.load (Policy.versionId id number) rego)) := by
  rcases hnumber with rfl | rfl
  · exact ends_talk (by rfl)
  · exact ends_talk (by rfl)

/-- Both sources of the first policy are of one package. -/
theorem exists_module {rego : String} (hrego : rego = draft.regoContent ∨ rego = source) :
    ∃ m, Rego.Module.ofSource? rego = .ok m ∧ m.package.path = ["open"] := by
  have hpath : (Rego.Module.ofSource? rego).toOption.map (fun m => m.package.path) = some ["open"] := by
    rcases hrego with rfl | rfl
    · decide +kernel
    · decide +kernel
  cases hm : Rego.Module.ofSource? rego with
  | error e =>
    rw [hm] at hpath
    contradiction
  | ok m =>
    rw [hm] at hpath
    exact ⟨m, rfl, Option.some.inj hpath⟩

theorem packagePath?_eq {rego : String} (hrego : rego = draft.regoContent ∨ rego = source) :
    Rego.packagePath? rego = .ok "open" := by
  obtain ⟨m, hm, hpath⟩ := exists_module hrego
  rw [Rego.packagePath?, hm]
  show Except.ok m.dataPath = _
  rw [Rego.Module.dataPath, hpath]
  rfl

theorem ends_evaluate {rego : String} (hrego : rego = draft.regoContent ∨ rego = source) (input : Json) :
    ∃ calls, Ends anyPeer (peers.engine.evaluate rego input) [] (.ok ⟨.failing, none⟩) calls := by
  rw [Client.evaluate, packagePath?_eq hrego]
  refine ⟨talk 200 _, ends_talk ?_⟩
  rfl

end First
end Gatehouse.Service
