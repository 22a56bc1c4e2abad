import Gatehouse.Proofs.Evaluation.Coherence
import Gatehouse.Proofs.Service.Calls

/-!
# What is put at a rule engine

Before a version is evaluated, the client asks the rule engine whether there is a policy of its id, and puts
the source there if there is none.  If there is one, the client trusts that it has this source.  It may,
since all that was ever put under the id is the source of the one version.

1. **Conveying.**  To load a version takes a question about its policy, and possibly a request to put the
   source there (`Peers.loading_of_conveys`).  To evaluate it takes one request
   (`Peers.evaluating_of_conveys`).
2. **What an engine holds** (`held?`) is what it accepted last.  It is truthful (`IsTruthful`) if it says of
   nothing else that it is there.
3. **Ends** (`Peers.Serves`).  An exchange asks something, or puts the source of a version under its id, or
   evaluates a version right after it was loaded.
4. **The crux** (`serves_of_coherent`) is that the exchanges of a coherent log serve nothing else.  So under
   the id of a version there is its source or nothing (`Peers.Reaches.held?`).
-/

namespace Gatehouse

open Service Store Http RuleEngine

/-! ## What conveys a question -/

/-- To send a request at most this request is made. -/
theorem Http.Request.asks_send {P : Request → Prop} {q : Request}
    (h : P { q with url := q.url.withoutUser }) : Program.Asks (S := wire) P q.send.run := by
  rw [send]
  split
  · exact ⟨h, fun _ => by trivial⟩
  · trivial

/-- Nothing is written at an occurrence store. -/
theorem Occurrence.Client.asks_list (c : Client) (q : ListRequest) :
    Program.Asks (S := wire) (fun r => r.verb = .get) (c.list q).run := by
  unfold Client.list
  split
  · trivial
  · refine asks_bind (by trivial) fun url => asks_bind ?_ fun r => ?_
    · exact Program.Asks.bind (Request.asks_send rfl) fun _ => by trivial
    · by_cases hstatus : r.status ≠ 200
      · rw [if_pos hstatus]
        trivial
      · rw [if_neg hstatus]
        cases Json.decode? ListResponse.ofJson? r.content <;> trivial

theorem Occurrence.Client.verb_of_ends {c : Client} {q : ListRequest} {r : Except ListError ListResponse}
    {calls : List (Exchange wire)} (he : Ends anyPeer (c.list q) [] r calls) :
    ∀ x ∈ calls, x.request.verb = .get := by
  refine (c.asks_list q).keeps (I := fun log => ∀ x ∈ log, Request.verb x.request = .get) ?_
    (ends_iff.1 he) (by simp)
  intro log r reply hr _ hlog x hx
  rcases List.mem_append.1 hx with hx | hx
  · exact hlog x hx
  · obtain rfl := List.mem_singleton.1 hx
    exact hr

namespace Service.Peers

variable {p : Peers} {u : Url} {calls : List (Exchange wire)}

/-- Loading a version is asking for its policy, and putting it there if there is none. -/
theorem loading_of_conveys (hu : u.IsBase p.engine.base) {uuid : String} (huuid : Text.IsUuid uuid)
    {number : UInt32} {rego : String} {reply : Except EngineError Unit}
    (h : p.Conveys ⟨.load (Policy.versionId uuid number) rego, reply⟩ calls) :
    ∃ url : Url, url.target = u.target ++ "v1/policies/" ++ Policy.versionId uuid number ∧
      Client.Loading (Client.request .get url none) (Client.request .put url (some (.plain rego)))
        (Policy.versionId uuid number) calls reply := by
  obtain ⟨url, hurl, htarget, hsendable⟩ := Client.policyAddress_url hu huuid number
  obtain ⟨_, rfl, hloading⟩ := Client.ends_load hurl hsendable h
  exact ⟨url, htarget, hloading⟩

/-- Evaluating a source is one question at the document of its package. -/
theorem evaluating_of_conveys (hu : u.IsBase p.engine.base) {rego path : String} {input : Json}
    {reply : Except EngineError Evaluation} (hpath : Rego.packagePath? rego = .ok path)
    (h : p.Conveys ⟨.evaluate rego input, reply⟩ calls) :
    ∃ url x, Url.ofText? (p.engine.dataAddress path) = .ok url ∧ calls = [x] ∧
      x.request = Client.request .post url (some (.json (.object [("input", input)]))) := by
  obtain ⟨url, hurl, hsendable⟩ := Client.dataAddress_url hu path
  obtain ⟨_, rfl, hevaluating⟩ := Client.ends_evaluate hpath hurl hsendable h
  obtain ⟨reply', rfl⟩ := hevaluating.exists_reply
  exact ⟨url, _, hurl, rfl, rfl⟩

/-- A question while a source is evaluated is the only one. -/
theorem post_of_conveys (hu : u.IsBase p.engine.base) {rego : String} {input : Json}
    {reply : Except EngineError Evaluation} (h : p.Conveys ⟨.evaluate rego input, reply⟩ calls)
    {x : Exchange wire} (hx : x ∈ calls) :
    ∃ path url, Rego.packagePath? rego = .ok path ∧ Url.ofText? (p.engine.dataAddress path) = .ok url ∧
      x.request = Client.request .post url (some (.json (.object [("input", input)]))) ∧ calls = [x] := by
  cases hpath : Rego.packagePath? rego with
  | error e =>
    obtain ⟨rfl, -⟩ := Client.ends_evaluate_unread hpath h
    exact absurd hx List.not_mem_nil
  | ok path =>
    obtain ⟨url, y, hurl, rfl, hrequest⟩ := evaluating_of_conveys hu hpath h
    obtain rfl := List.mem_singleton.1 hx
    exact ⟨path, url, rfl, hurl, hrequest, rfl⟩

end Service.Peers

/-! ## What an engine holds -/

namespace RuleEngine

/-- The source that an exchange puts under a target, if it is accepted there. -/
def accepted? (target : String) (x : Exchange wire) : Option String :=
  match x.request.verb, x.request.content?, (x.reply : Except String Response) with
  | .put, some (.plain source), .ok r =>
    if r.isSuccess = true ∧ x.request.url.target = target then some source else none
  | _, _, _ => none

/-- What was put under a target last. -/
def held? (target : String) (calls : List (Exchange wire)) : Option String :=
  (calls.filterMap (accepted? target)).getLast?

/-- An engine that says that it has something under a target only after it accepted something there. -/
def IsTruthful (target : String) (calls : List (Exchange wire)) : Prop :=
  ∀ (before : List (Exchange wire)) (q : Http.Request) (r : Response) (after : List (Exchange wire)),
    calls = before ++ ⟨q, .ok r⟩ :: after → q.verb = .get → q.url.target = target → r.status = 200 →
      (held? target before).isSome = true

theorem isTruthful_of_forall {target : String} {calls : List (Exchange wire)}
    (h : ∀ x ∈ calls, x.request.verb = .get → x.request.url.target = target →
      ∀ r : Response, x.reply = .ok r → r.status ≠ 200) : IsTruthful target calls :=
  fun _ _ r _ hcalls hverb htarget hstatus =>
    absurd hstatus (h _ (hcalls ▸ List.mem_append_right _ List.mem_cons_self) hverb htarget r rfl)

theorem held?_concat (target : String) (calls : List (Exchange wire)) (x : Exchange wire) :
    held? target (calls ++ [x]) = (accepted? target x).or (held? target calls) := by
  rw [held?, held?, List.filterMap_append]
  cases hx : accepted? target x with
  | none => simp [hx]
  | some source => simp [hx]

theorem exists_of_held? {target source : String} {calls : List (Exchange wire)}
    (h : held? target calls = some source) : ∃ x ∈ calls, accepted? target x = some source :=
  List.mem_filterMap.1 (List.mem_of_getLast? h)

/-- What is accepted was put there. -/
theorem accepted?_eq_some {target source : String} {x : Exchange wire}
    (h : accepted? target x = some source) : x.request.verb = .put ∧ x.request.url.target = target ∧
      x.request.content? = some (.plain source) := by
  unfold accepted? at h
  split at h
  · rename_i hverb hcontent _
    obtain ⟨⟨-, htarget⟩, hsource⟩ := Option.ite_none_right_eq_some.1 h
    exact ⟨hverb, htarget, Option.some.inj hsource ▸ hcontent⟩
  · contradiction

/-- After loading, a truthful engine holds the source, or something that it held before. -/
theorem held?_of_loading {target policyId source : String} {policyUrl : Url}
    {earlier calls : List (Exchange wire)} (htarget : policyUrl.target = target)
    (hloading : Client.Loading (Client.request .get policyUrl none)
      (Client.request .put policyUrl (some (.plain source))) policyId calls (.ok ()))
    (htruthful : IsTruthful target (earlier ++ calls)) : held? target (earlier ++ calls) = some source ∨
      ∃ older, held? target (earlier ++ calls) = some older ∧ held? target earlier = some older := by
  have hget : (Client.request .get policyUrl none).url.target = target :=
    (Client.target_withoutUser policyUrl).trans htarget
  cases hloading with
  | present found =>
    obtain ⟨older, holder⟩ := Option.isSome_iff_exists.1 (htruthful _ _ _ _ rfl rfl hget found)
    refine .inr ⟨older, ?_, holder⟩
    rw [held?_concat, holder]
    rfl
  | published missing success =>
    left
    rw [← List.singleton_append, ← List.append_assoc, held?_concat]
    have haccepted : ∀ r : Response, r.isSuccess = true → accepted? target
        ⟨Client.request .put policyUrl (some (.plain source)), .ok r⟩ = some source := fun r hr => by
      exact if_pos ⟨hr, hget⟩
    rw [haccepted _ success]
    rfl

end RuleEngine

/-! ## What an exchange is for -/

/-- What comes before an element of lists one after the other: whole lists, and the start of its own. -/
theorem exists_of_flatMap_eq {α β : Type} {f : α → List β} {ys : List α} {before after : List β} {x : β}
    (h : ys.flatMap f = before ++ x :: after) : ∃ zs y more front back, ys = zs ++ y :: more ∧
      f y = front ++ x :: back ∧ before = zs.flatMap f ++ front := by
  induction ys generalizing before with
  | nil => simp at h
  | cons y ys ih =>
    rw [List.flatMap_cons] at h
    have hlater : ∀ rest, ys.flatMap f = rest ++ x :: after → ∃ zs z more front back,
        y :: ys = zs ++ z :: more ∧ f z = front ++ x :: back ∧ f y ++ rest = zs.flatMap f ++ front := by
      intro rest hrest
      obtain ⟨zs, z, more, front, back, rfl, hz, rfl⟩ := ih hrest
      exact ⟨y :: zs, z, more, front, back, rfl, hz, by rw [List.flatMap_cons, List.append_assoc]⟩
    rcases List.append_eq_append_iff.1 h with ⟨rest, rfl, hrest⟩ | ⟨rest, hy, hrest⟩
    · exact hlater rest hrest
    · cases rest with
      | nil =>
        rw [List.append_nil] at hy
        obtain ⟨zs, z, more, front, back, hys, hz, hbefore⟩ := hlater [] hrest.symm
        rw [List.append_nil, hy] at hbefore
        exact ⟨zs, z, more, front, back, hys, hz, hbefore⟩
      | cons w rest =>
        obtain ⟨rfl, -⟩ := List.cons.inj hrest
        exact ⟨[], y, ys, before, rest, rfl, hy, rfl⟩

namespace Service

/-- The id of a version that is held is made of a UUID and a number. -/
theorem State.Keeps.version_id {s : State} {h : Holdings} (hs : s.Keeps h) {id : String} {v : PolicyVersion}
    (hv : h.version? id = some v) :
    v.id = id ∧ Text.IsUuid v.policyId ∧ v.id = Policy.versionId v.policyId v.version := by
  obtain ⟨hmem, hid⟩ := hs.holds.version?_eq_some.1 hv
  obtain ⟨q, hq, howner⟩ := hs.sound.owned v hmem
  exact ⟨hid, howner ▸ hs.honest.uuid _ (hs.sound.policyId q hq), hs.sound.versionId v hmem⟩

/-- What an exchange on a network is for, after other exchanges. -/
inductive Peers.Serves (p : Peers) (u : Url) (version? : String → Option PolicyVersion)
    (before : List (Exchange wire)) (x : Exchange wire) : Prop
  /-- A question. -/
  | asks (verb : x.request.verb = .get)
  /-- The source of a version is put under the id of the version. -/
  | uploads {v : PolicyVersion} (held : version? v.id = some v) (verb : x.request.verb = .put)
      (target : x.request.url.target = u.target ++ "v1/policies/" ++ v.id)
      (content : x.request.content? = some (.plain v.regoContent))
  /-- A version is evaluated at the document of its package, right after it was loaded. -/
  | evaluates {v : PolicyVersion} {path : String} {url policyUrl : Url} {earlier calls : List (Exchange wire)}
      (held : version? v.id = some v) (verb : x.request.verb = .post)
      (package : Rego.packagePath? v.regoContent = .ok path)
      (address : Url.ofText? (p.engine.dataAddress path) = .ok url)
      (target : x.request.url.target = url.target)
      (policyTarget : policyUrl.target = u.target ++ "v1/policies/" ++ v.id)
      (loaded : Client.Loading (Client.request .get policyUrl none)
        (Client.request .put policyUrl (some (.plain v.regoContent))) v.id calls (.ok ()))
      (after : before = earlier ++ calls)

section Traces

variable {p : Peers} {u : Url} {s : State} {h : Holdings}
  {ys : List (Exchange effects × List (Exchange wire))}

/-- What conveys the loading of a policy is the loading of a version that is held. -/
theorem loading_of_mem (hu : u.IsBase p.engine.base) (hs : s.Keeps h)
    (hc : IsCoherent h.version? (ys.map Prod.fst)) (hys : ∀ y ∈ ys, p.Conveys y.1 y.2) {id rego : String}
    {reply : Except EngineError Unit} {calls : List (Exchange wire)}
    (hy : (⟨.load id rego, reply⟩, calls) ∈ ys) : ∃ (v : PolicyVersion) (policyUrl : Url),
      h.version? v.id = some v ∧ v.regoContent = rego ∧
      policyUrl.target = u.target ++ "v1/policies/" ++ v.id ∧
      Client.Loading (Client.request .get policyUrl none)
        (Client.request .put policyUrl (some (.plain v.regoContent))) v.id calls reply := by
  obtain ⟨v, hv, rfl⟩ := hc.loaded id rego reply (List.mem_map_of_mem hy)
  obtain ⟨rfl, huuid, hid⟩ := hs.version_id hv
  have hconveys : p.Conveys ⟨.load v.id v.regoContent, reply⟩ calls := hys _ hy
  rw [hid] at hconveys
  obtain ⟨policyUrl, htarget, hloading⟩ := Peers.loading_of_conveys hu huuid hconveys
  rw [← hid] at htarget hloading
  exact ⟨v, policyUrl, hv, rfl, htarget, hloading⟩

/-- Right before what conveys an evaluation comes what conveys the loading of a version of this source. -/
theorem loading_of_evaluating (hu : u.IsBase p.engine.base) (hs : s.Keeps h)
    {zs more : List (Exchange effects × List (Exchange wire))} {rego : String} {input : Json}
    {reply : Except EngineError Evaluation} {calls : List (Exchange wire)}
    (hys : ys = zs ++ (⟨.evaluate rego input, reply⟩, calls) :: more)
    (hc : IsCoherent h.version? (ys.map Prod.fst)) (hconveys : ∀ y ∈ ys, p.Conveys y.1 y.2) :
    ∃ (v : PolicyVersion) (policyUrl : Url) (earlier loading : List (Exchange wire)),
      zs.flatMap Prod.snd = earlier ++ loading ∧ h.version? v.id = some v ∧ v.regoContent = rego ∧
      policyUrl.target = u.target ++ "v1/policies/" ++ v.id ∧
      Client.Loading (Client.request .get policyUrl none)
        (Client.request .put policyUrl (some (.plain v.regoContent))) v.id loading (.ok ()) := by
  obtain ⟨earlier, id, hearlier⟩ := hc.evaluated (zs.map Prod.fst) rego input reply (more.map Prod.fst)
    (by simp [hys])
  obtain ⟨before, ws, rfl, -, hws⟩ := List.map_eq_append_iff.1 hearlier
  obtain ⟨⟨_, loading⟩, rfl, rfl⟩ := List.map_eq_singleton_iff.1 hws
  have hmem : (⟨.load id rego, .ok ()⟩, loading) ∈ ys := hys ▸
    List.mem_append_left _ (List.mem_append_right before (List.mem_singleton_self _))
  obtain ⟨v, policyUrl, hv, hrego, htarget, hloading⟩ := loading_of_mem hu hs hc hconveys hmem
  exact ⟨v, policyUrl, before.flatMap Prod.snd, loading, by simp, hv, hrego, htarget, hloading⟩

/-- **Every exchange serves one of these ends** if the service's own exchanges are coherent. -/
theorem serves_of_coherent (hu : u.IsBase p.engine.base) (hs : s.Keeps h)
    (hc : IsCoherent h.version? (ys.map Prod.fst)) (hys : ∀ y ∈ ys, p.Conveys y.1 y.2)
    {before after : List (Exchange wire)} {x : Exchange wire}
    (hx : ys.flatMap Prod.snd = before ++ x :: after) : p.Serves u h.version? before x := by
  obtain ⟨zs, ⟨⟨q, reply⟩, calls⟩, more, front, back, hsplit, hcalls, rfl⟩ := exists_of_flatMap_eq hx
  obtain rfl : calls = front ++ x :: back := hcalls
  have hmem : x ∈ front ++ x :: back := by simp
  have hown : (⟨q, reply⟩, front ++ x :: back) ∈ ys := by simp [hsplit]
  have hconveys : p.Conveys ⟨q, reply⟩ (front ++ x :: back) := hys _ hown
  have hsome : front ++ x :: back ≠ [] := by simp
  cases q with
  | store c => exact absurd hconveys hsome
  | now => exact absurd hconveys hsome
  | freshId => exact absurd hconveys hsome
  | listOccurrences r => exact .asks (Occurrence.Client.verb_of_ends hconveys x hmem)
  | load policyId rego =>
    obtain ⟨v, policyUrl, hv, rfl, htarget, hloading⟩ := loading_of_mem hu hs hc hys hown
    rcases hloading.request_eq hmem with hrequest | hrequest
    · exact .asks (by rw [hrequest]; rfl)
    · refine .uploads hv (by rw [hrequest]; rfl) ?_ (by rw [hrequest]; rfl)
      rw [hrequest, ← htarget]
      exact Client.target_withoutUser policyUrl
  | evaluate rego input =>
    obtain ⟨v, policyUrl, earlier, loading, hbefore, hv, rfl, htarget, hloading⟩ :=
      loading_of_evaluating hu hs hsplit hc hys
    obtain ⟨path, url, hpath, hurl, hrequest, hsingle⟩ := Peers.post_of_conveys hu hconveys hmem
    obtain rfl : front = [] := by
      rcases List.append_eq_singleton_iff.1 hsingle with ⟨hnil, -⟩ | ⟨-, hnil⟩
      · exact hnil
      · exact absurd hnil (List.cons_ne_nil _ _)
    rw [List.append_nil]
    refine .evaluates hv (by rw [hrequest]; rfl) hpath hurl ?_ htarget hloading hbefore
    rw [hrequest]
    exact Client.target_withoutUser url

end Traces

section Networks

variable {p : Peers} {u : Url} {svc : Service} {n : Traffic} {before after : List (Exchange wire)}
  {x : Exchange wire}

/-- On a network every exchange serves one of these ends. -/
theorem Peers.Reaches.serves (hu : u.IsBase p.engine.base) (hn : p.Reaches svc n)
    (hx : n.wire = before ++ x :: after) : p.Serves u n.memory.version? before x := by
  obtain ⟨steps, s, ys, hrun, hlog, hys, rfl⟩ := Peers.reaches_iff.1 hn
  obtain ⟨h, hs, hc⟩ := hrun.isCoherent State.keeps_initial (.of_forall (by simp [State.initial]))
  have hversion : s.memory.version? = h.version? := funext fun _ => hs.version?_eq
  show p.Serves u s.memory.version? before x
  rw [hversion]
  exact serves_of_coherent hu hs (hlog ▸ hc) hys hx

/-- What is put somewhere is the source of a version, under its id. -/
theorem Peers.Reaches.exists_put (hu : u.IsBase p.engine.base) (hn : p.Reaches svc n)
    (hx : n.wire = before ++ x :: after) (hput : x.request.verb = .put) :
    ∃ v, n.memory.version? v.id = some v ∧ x.request.url.target = u.target ++ "v1/policies/" ++ v.id ∧
      x.request.content? = some (.plain v.regoContent) := by
  cases hn.serves hu hx with
  | asks verb => exact absurd (verb.symm.trans hput) (by decide)
  | uploads held verb target content => exact ⟨_, held, target, content⟩
  | evaluates held verb => exact absurd (verb.symm.trans hput) (by decide)

/-- What is evaluated is a version that was loaded right before. -/
theorem Peers.Reaches.exists_post (hu : u.IsBase p.engine.base) (hn : p.Reaches svc n)
    (hx : n.wire = before ++ x :: after) (hpost : x.request.verb = .post) :
    ∃ (v : PolicyVersion) (path : String) (url policyUrl : Url) (earlier loading : List (Exchange wire)),
      n.memory.version? v.id = some v ∧ Rego.packagePath? v.regoContent = .ok path ∧
      Url.ofText? (p.engine.dataAddress path) = .ok url ∧ x.request.url.target = url.target ∧
      policyUrl.target = u.target ++ "v1/policies/" ++ v.id ∧
      Client.Loading (Client.request .get policyUrl none)
        (Client.request .put policyUrl (some (.plain v.regoContent))) v.id loading (.ok ()) ∧
      before = earlier ++ loading := by
  cases hn.serves hu hx with
  | asks verb => exact absurd (verb.symm.trans hpost) (by decide)
  | uploads held verb => exact absurd (verb.symm.trans hpost) (by decide)
  | evaluates held verb package address target policyTarget loaded earlier =>
    exact ⟨_, _, _, _, _, _, held, package, address, target, policyTarget, loaded, earlier⟩

/-- What an engine holds under the id of a version is the source of this version. -/
theorem Peers.Reaches.held? (hu : u.IsBase p.engine.base) (hn : p.Reaches svc n) {id source : String}
    (hwire : n.wire = before ++ after)
    (hheld : RuleEngine.held? (u.target ++ "v1/policies/" ++ id) before = some source) :
    ∃ v, n.memory.version? id = some v ∧ v.regoContent = source := by
  obtain ⟨x, hx, haccepted⟩ := exists_of_held? hheld
  obtain ⟨hverb, htarget, hcontent⟩ := accepted?_eq_some haccepted
  obtain ⟨earlier, later, rfl⟩ := List.append_of_mem hx
  rw [List.append_assoc] at hwire
  obtain ⟨v, held, target, content⟩ := hn.exists_put hu hwire hverb
  obtain rfl : v.id = id := (String.append_right_inj _).1 (target.symm.trans htarget)
  rw [hcontent] at content
  exact ⟨v, held, (Content.plain.inj (Option.some.inj content)).symm⟩

end Networks

/-- **The rule engine has the sources of versions, and is asked about nothing else.**  In any run from
nothing:

* a policy is loaded with the same source whenever it is loaded, and this is the source of the version of
  its id that is stored;
* a source is evaluated right after it was loaded with success.

So it does no harm that what is there is not put there again.  On a network, whatever the engine replies:

* what is put under an id is the source of the version of this id that is stored;
* so what the engine has under an id, at any time, is this source;
* a request to evaluate goes to the document of the package of a version, and if the engine says only of
  policies that it accepted that they are there, then it has at this time the source of the version. -/
theorem engine_isCoherent {svc : Service} {steps : List Step} {s : State} (hrun : Run svc .initial steps s) :
    (∀ id rego rego' reply reply', ⟨.load id rego, reply⟩ ∈ s.log → ⟨.load id rego', reply'⟩ ∈ s.log →
      rego = rego') ∧
    (∀ id rego reply, ⟨.load id rego, reply⟩ ∈ s.log →
      ∃ v, s.memory.version? id = some v ∧ v.regoContent = rego) ∧
    (∀ before rego input reply after, s.log = before ++ ⟨.evaluate rego input, reply⟩ :: after →
      ∃ earlier id, before = earlier ++ [⟨.load id rego, .ok ()⟩]) ∧
    ∀ (p : Peers) (u : Url) (n : Traffic), u.IsBase p.engine.base → p.Reaches svc n →
      (∀ x ∈ n.wire, x.request.verb = .put → ∃ v, n.memory.version? v.id = some v ∧
        x.request.url.target = u.target ++ "v1/policies/" ++ v.id ∧
        x.request.content? = some (.plain v.regoContent)) ∧
      (∀ before after id source, n.wire = before ++ after →
        held? (u.target ++ "v1/policies/" ++ id) before = some source →
          ∃ v, n.memory.version? id = some v ∧ v.regoContent = source) ∧
      ∀ before x after, n.wire = before ++ x :: after → x.request.verb = .post →
        ∃ v path url, n.memory.version? v.id = some v ∧ Rego.packagePath? v.regoContent = .ok path ∧
          Url.ofText? (p.engine.dataAddress path) = .ok url ∧ x.request.url.target = url.target ∧
          (IsTruthful (u.target ++ "v1/policies/" ++ v.id) before →
            held? (u.target ++ "v1/policies/" ++ v.id) before = some v.regoContent) := by
  obtain ⟨h, hs, hc⟩ := hrun.isCoherent State.keeps_initial (.of_forall (by simp [State.initial]))
  have hversion : s.memory.version? = h.version? := funext fun _ => hs.version?_eq
  rw [← hversion] at hc
  refine ⟨fun id rego rego' reply reply' hload hload' => ?_, hc.loaded, hc.evaluated, fun p u n hu hn =>
    ⟨fun x hx hput => ?_, fun before after id source hwire hheld => hn.held? hu hwire hheld,
      fun before x after hwire hpost => ?_⟩⟩
  · obtain ⟨v, hv, rfl⟩ := hc.loaded id rego reply hload
    obtain ⟨v', hv', rfl⟩ := hc.loaded id rego' reply' hload'
    rw [Option.some.inj (hv.symm.trans hv')]
  · obtain ⟨before, after, hwire⟩ := List.append_of_mem hx
    exact hn.exists_put hu hwire hput
  · obtain ⟨v, path, url, policyUrl, earlier, loading, held, package, address, target, policyTarget, loaded,
      rfl⟩ := hn.exists_post hu hwire hpost
    refine ⟨v, path, url, held, package, address, target, fun htruthful => ?_⟩
    rcases held?_of_loading policyTarget loaded htruthful with hsource | ⟨older, holder, hearlier⟩
    · exact hsource
    · -- what was held before is the source of the version, too
      rw [List.append_assoc] at hwire
      obtain ⟨v', hv', rfl⟩ := hn.held? hu hwire hearlier
      rw [holder, Option.some.inj (held.symm.trans hv')]

namespace First

/-- On the first network a version is evaluated, and the engine is truthful before. -/
theorem exists_asked : ∃ (n : Traffic) (before : List (Exchange wire)) (x : Exchange wire),
    peers.Reaches lenient n ∧ n.wire = before ++ [x] ∧ x.request.verb = .post ∧
    (∀ v, n.memory.version? v.id = some v → v.id = Policy.versionId id 1) ∧
    IsTruthful (base.target ++ "v1/policies/" ++ Policy.versionId id 1) before := by
  obtain ⟨_, s, hcreated, hs, -⟩ := exists_created
  have hn : peers.Reaches lenient (s.withWire []) :=
    Peers.Reaches.inward (s := .initial) .initial (o := .createPolicy draft) rfl hcreated
  have hdraft : draft.regoContent = draft.regoContent ∨ draft.regoContent = source := .inl rfl
  obtain ⟨calls, hevaluate⟩ := ends_evaluate hdraft (.object [("occurrences", .array [])])
  obtain ⟨url, x, -, rfl, hrequest⟩ :=
    Peers.evaluating_of_conveys isBase (packagePath?_eq hdraft) hevaluate
  have huri : inquiry.resourceUri ≠ "" := by decide
  have found : Holdings.policy? { holdings with groups := [], assignments := [] } id =
      some (draft.policy id time) := by decide
  have version : Holdings.version? { holdings with groups := [], assignments := [] }
      (Policy.versionId id 1) = some (draft.version id time) := by decide
  obtain ⟨t, hn', ht⟩ := hn.evaluatePolicy hs huri (by decide) (by decide) found version ends_builds
    ends_related (ends_load 1 (.inl rfl) _) hevaluate
  refine ⟨_, _, x, hn', rfl, ?_, fun v hv => ?_, isTruthful_of_forall ?_⟩
  · rw [hrequest]
    rfl
  · obtain ⟨hheld, -⟩ := ht.holds.version?_eq_some.1 (ht.version?_eq.symm.trans hv)
    obtain rfl : v = draft.version id time := by simpa [holdings] using hheld
    rfl
  · have hlists : ∀ x ∈ talk 200 (lookUp builds) ++ talk 200 (lookUp related),
        x.request.url.target ≠ base.target ++ "v1/policies/" ++ Policy.versionId id 1 := by decide +kernel
    have hload : ∀ x ∈ talk 404 (peers.engine.load (Policy.versionId id 1) draft.regoContent),
        Request.verb x.request = .get →
          (x.reply : Except String Response).toOption.map Response.status = some 404 := by
      decide +kernel
    intro x hx hverb htarget r hreply
    rcases List.mem_append.1 hx with hx | hx
    · exact absurd htarget (hlists x hx)
    · have hstatus := hload x hx hverb
      rw [hreply] at hstatus
      obtain hstatus : r.status = 404 := Option.some.inj hstatus
      rw [hstatus]
      decide

end First

/-- The first version that is evaluated was loaded right before, and an engine that has nothing at first has
its source then. -/
theorem engine_isCoherent_first :
    (∃ (steps : List Step) (s : State) (earlier : List (Exchange effects)) (id rego : String) (input : Json)
      (reply : Except EngineError Evaluation) (later : List (Exchange effects)),
      Run lenient .initial steps s ∧
      s.log = earlier ++ [⟨.load id rego, .ok ()⟩] ++ ⟨.evaluate rego input, reply⟩ :: later ∧
      ∃ v, s.memory.version? id = some v ∧ v.regoContent = rego) ∧
    ∃ (n : Traffic) (before : List (Exchange wire)) (x : Exchange wire) (v : PolicyVersion),
      First.peers.Reaches lenient n ∧ n.wire = before ++ [x] ∧ x.request.verb = .post ∧
      n.memory.version? v.id = some v ∧
      held? (First.base.target ++ "v1/policies/" ++ v.id) before = some v.regoContent := by
  constructor
  · obtain ⟨steps, s, hrun, hs, hgiven, -⟩ := First.exists_assigned
    have hids : ∀ i ∈ First.recordIds, Text.IsUuid i ∧ i ∉ s.given := by
      rw [hgiven]
      decide
    obtain ⟨r, t, he⟩ := EvaluationRecord.create_succeeds First.time hs First.evaluable rfl hids (by decide)
      First.time_isKept
    let x : Step := ⟨administrator, .evaluateResource First.inquiry, .ok r, s, t⟩
    have hruns : Run lenient .initial (steps ++ [x]) t :=
      hrun.append (.cons (x := x) (ends_administrator he) (.nil t))
    obtain ⟨-, hloaded, hevaluated, -⟩ := engine_isCoherent hruns
    rcases EvaluationRecord.create_ends hs he with ⟨e, hfailed, -⟩ | ⟨x, m, -, -, hx, -, hlog⟩
    · contradiction
    · -- one assignment is in the scope of the group, so that one version is evaluated
      have hassigned : First.assignment ∈ x.assignments := hx.covered.mem_iff.2 (by decide)
      obtain ⟨a, ha, -⟩ := List.mem_map.1 hassigned
      have hmem : ⟨.evaluate a.version.regoContent x.input, .ok a.evaluation⟩ ∈ t.log := by
        rw [hlog, hx.log]
        refine List.mem_append_left _ (List.mem_append_right _ (List.mem_append_right _ ?_))
        exact List.mem_flatMap.2 ⟨a, ha, by simp [Assessment.exchanges]⟩
      obtain ⟨before, later, hsplit⟩ := List.append_of_mem hmem
      obtain ⟨earlier, id, rfl⟩ := hevaluated _ _ _ _ _ hsplit
      exact ⟨_, t, earlier, id, _, _, _, later, hruns, hsplit, hloaded id _ (.ok ()) (by simp [hsplit])⟩
  · obtain ⟨n, before, x, hn, hwire, hpost, honly, htruthful⟩ := First.exists_asked
    obtain ⟨-, -, -, hnetwork⟩ := engine_isCoherent (.nil .initial : Run lenient .initial [] .initial)
    obtain ⟨-, -, hevaluated⟩ := hnetwork First.peers First.base n First.isBase hn
    obtain ⟨v, -, -, hv, -, -, -, hsource⟩ := hevaluated before x [] hwire hpost
    exact ⟨n, before, x, v, hn, hwire, hpost, hv, hsource (honly v hv ▸ htruthful)⟩

end Service
end Gatehouse
