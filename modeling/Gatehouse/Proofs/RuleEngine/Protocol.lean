import Gatehouse.Proofs.Effect.Run
import Gatehouse.Proofs.Http.Target
import Gatehouse.Proofs.Json.Record
import Gatehouse.Proofs.Text.Digits
import Gatehouse.Proofs.Text.Uuid
import Gatehouse.RuleEngine.Client

/-!
# The protocol with the rule engine

A client exchanges requests for responses with a peer that may do as it likes: answer with any status
and any text, answer differently every time, or not be there at all.  What the client makes of it is
said here for all peers at once.

1. **Peers** (`anyPeer`).  A peer may give any reply; the state is the log of what was exchanged.
2. **Loading** (`ends_load`): one question, and one policy put where the question was asked, if and only
   if the answer was that there is none.
3. **Evaluating** (`ends_evaluate`): nothing is asked for a source that names no package, and otherwise
   one question.
4. **The crux** is that there is one way to a passing evaluation (`Evaluating.pass_iff`): a success whose
   content is an answer with a result that passes.  Every other reply is a failure or does not pass.
-/

namespace Gatehouse

open Http Text

/-! ## Peers -/

/-- A peer that may give any reply to any request. -/
def anyPeer : Setting wire (List (Exchange wire)) where
  allows _ _ _ := True
  after log r reply := log ++ [⟨r, reply⟩]

/-- Whatever was exchanged before, the same may be exchanged from now on. -/
theorem runs_anyPeer {α : Type} {c : Program wire α} {log log' : List (Exchange wire)} {a : α} :
    c.Runs anyPeer log a log' ↔ ∃ calls, log' = log ++ calls ∧ c.Runs anyPeer [] a calls := by
  induction c generalizing log log' with
  | done b => simp [Program.runs_done, and_comm]
  | ask r next ih =>
    rw [Program.runs_ask]
    constructor
    · rintro ⟨reply, -, hrest⟩
      obtain ⟨calls, rfl, hcalls⟩ := (ih reply).1 hrest
      exact ⟨_, List.append_assoc .., Program.runs_ask.2 ⟨reply, trivial, (ih reply).2 ⟨calls, rfl, hcalls⟩⟩⟩
    · rintro ⟨_, rfl, hfirst⟩
      obtain ⟨reply, -, hrest⟩ := Program.runs_ask.1 hfirst
      obtain ⟨calls, rfl, hcalls⟩ := (ih reply).1 hrest
      exact ⟨reply, trivial, (ih reply).2 ⟨calls, (List.append_assoc ..).symm, hcalls⟩⟩

/-- A peer that replies by what was exchanged so far. -/
def peer (reply : List (Exchange wire) → Http.Request → Except String Response) :
    Program.World wire (List (Exchange wire)) := fun r log => (reply log r, log ++ [⟨r, reply log r⟩])

/-- What comes of talking to such a peer is one of the ends. -/
theorem ends_peer {ε α : Type} (reply : List (Exchange wire) → Http.Request → Except String Response)
    (c : Http.Client ε α) (log : List (Exchange wire)) :
    Ends anyPeer c log (c.run.run (peer reply) log).1 (c.run.run (peer reply) log).2 :=
  ends_iff.2 (Program.runs_run (peer reply) c.run (fun _ _ => ⟨trivial, rfl⟩) log)

namespace RuleEngine.Client

section Exchanges

variable {α ε ζ : Type} {log log' : List (Exchange wire)}

/-- A failure in other words. -/
theorem ends_adapt {f : ε → ζ} {a : Http.Client ε α} {r : Except ζ α} :
    Ends anyPeer (ExceptT.adapt f a) log r log' ↔
      ∃ r', Ends anyPeer a log r' log' ∧ r = r'.mapError f := by
  have h : Program.Runs anyPeer (ExceptT.adapt f a).run log r log' ↔
      ∃ r' m, Program.Runs anyPeer a.run log r' m ∧
        Program.Runs anyPeer (.done (r'.mapError f)) m r log' :=
    Program.runs_bind
  simp only [ends_iff, h, Program.runs_done]
  constructor
  · rintro ⟨r', _, hrun, rfl, rfl⟩
    exact ⟨r', hrun, rfl⟩
  · rintro ⟨r', hrun, rfl⟩
    exact ⟨r', log', hrun, rfl, rfl⟩

/-- A request that can be sent is sent once, and any reply may come. -/
theorem ends_send {q : Http.Request} (hsendable : q.isSendable = true) {r : Except Failure Response} :
    Ends anyPeer q.send log r log' ↔
      ∃ reply : Except String Response, r = reply.mapError .unreachable ∧
        log' = log ++ [⟨{ q with url := q.url.withoutUser }, reply⟩] := by
  have hsend : q.send.run = (Program.request (S := wire) { q with url := q.url.withoutUser }).bind
      fun (reply : Except String Response) => .done (reply.mapError .unreachable) := by
    rw [Request.send, if_pos hsendable]
    rfl
  rw [ends_iff, hsend, Program.runs_bind]
  constructor
  · rintro ⟨reply, m, hreply, hdone⟩
    obtain ⟨-, rfl⟩ := Program.runs_request.1 hreply
    obtain ⟨rfl, rfl⟩ := Program.runs_done.1 hdone
    exact ⟨reply, rfl, rfl⟩
  · rintro ⟨reply, rfl, rfl⟩
    exact ⟨reply, _, Program.runs_request.2 ⟨trivial, rfl⟩, Program.runs_done.2 ⟨rfl, rfl⟩⟩

/-- The request that a client makes of a URL. -/
def request (verb : Verb) (url : Url) (content? : Option Content) : Http.Request :=
  ⟨verb, url.withoutUser, userAgent, content?⟩

/-- An exchange with a URL to which requests can be sent is one request and its reply. -/
theorem ends_exchange {verb : Verb} {address : String} {content? : Option Content} {url : Url}
    (hurl : Url.ofText? address = .ok url) (hsendable : Request.isSendable ⟨verb, url, userAgent, content?⟩ = true)
    {r : Except EngineError Response} :
    Ends anyPeer (exchange verb address content?) log r log' ↔
      ∃ reply : Except String Response, r = reply.mapError (fun words => .http none words) ∧
        log' = log ++ [⟨request verb url content?, reply⟩] := by
  rw [exchange, ends_adapt, Request.sendTo, hurl]
  simp only [ends_send hsendable]
  constructor
  · rintro ⟨_, ⟨reply, rfl, rfl⟩, rfl⟩
    refine ⟨reply, ?_, rfl⟩
    cases reply <;> rfl
  · rintro ⟨reply, rfl, rfl⟩
    refine ⟨_, ⟨reply, rfl, rfl⟩, ?_⟩
    cases reply <;> rfl

/-- An exchange gets a response and the client goes on with it, or it gets none and that is the end. -/
theorem ends_exchange_bind {verb : Verb} {address : String} {content? : Option Content} {url : Url}
    (hurl : Url.ofText? address = .ok url) (hsendable : Request.isSendable ⟨verb, url, userAgent, content?⟩ = true)
    {f : Response → Http.Client EngineError α} {r : Except EngineError α}
    (he : Ends anyPeer (exchange verb address content? >>= f) log r log') :
    (∃ s, Ends anyPeer (f s) (log ++ [⟨request verb url content?, .ok s⟩]) r log') ∨
      ∃ words, r = .error (.http none words) ∧
        log' = log ++ [⟨request verb url content?, .error words⟩] := by
  rcases ends_bind.1 he with ⟨s, m, hexchange, he⟩ | ⟨e, hexchange, rfl⟩
  · obtain ⟨reply, hreply, rfl⟩ := (ends_exchange hurl hsendable).1 hexchange
    cases reply with
    | error words => contradiction
    | ok s' =>
      obtain rfl := Except.ok.inj hreply
      exact .inl ⟨s, he⟩
  · obtain ⟨reply, hreply, rfl⟩ := (ends_exchange hurl hsendable).1 hexchange
    cases reply with
    | ok s => contradiction
    | error words =>
      obtain rfl := Except.error.inj hreply
      exact .inr ⟨words, rfl, rfl⟩

end Exchanges

/-! ## Addresses -/

theorem isAlphanum_of_isSmallHex {c : Char} (h : isSmallHex c = true) : c.isAlphanum = true := by
  simp only [isSmallHex, Bool.or_eq_true, Bool.and_eq_true, decide_eq_true_eq] at h
  rcases h with h | ⟨hlow, hhigh⟩
  · exact Bool.or_eq_true_iff.2 (.inr h)
  · have hz : c.val ≤ 122 := UInt32.le_trans hhigh (show 'f'.val ≤ 122 by decide)
    have hlower : c.isLower = true := Bool.and_eq_true_iff.2 ⟨decide_eq_true hlow, decide_eq_true hz⟩
    exact Bool.or_eq_true_iff.2 (.inl (Bool.or_eq_true_iff.2 (.inr hlower)))

/-- The characters of a version's id. -/
theorem mem_versionId {uuid : String} (huuid : IsUuid uuid) (number : UInt32) {c : Char}
    (hc : c ∈ (Policy.versionId uuid number).toList) : c = '-' ∨ c = '.' ∨ isSmallHex c = true := by
  rw [Policy.versionId, String.toList_ofList] at hc
  rcases List.mem_append.1 hc with hc | hc
  · rcases huuid.digits c hc with hhyphen | hhex
    · exact .inl hhyphen
    · exact .inr (.inr hhex)
  · rcases List.mem_cons.1 hc with hpoint | hc
    · exact .inr (.inl hpoint)
    · refine .inr (.inr ?_)
      rw [isSmallHex, isDigit_of_mem_decimal hc, Bool.true_or]

theorem points_cons_of_ne {c : Char} (hpoint : c ≠ '.') (hpercent : c ≠ '%') (cs : List Char) :
    Path.points (c :: cs) = none := by
  unfold Path.points
  split <;> simp_all

/-- The address of a version's policy is plain. -/
theorem isPlain_policy {uuid : String} (huuid : IsUuid uuid) (number : UInt32) :
    Url.IsPlain ("v1/policies/" ++ Policy.versionId uuid number) := by
  have hid : ∀ c ∈ (Policy.versionId uuid number).toList,
      (inPath c = false ∧ c ≠ '\\') ∧ Url.isSlash true c = false := by
    intro c hc
    rcases mem_versionId huuid number hc with rfl | rfl | hhex
    · decide
    · decide
    · obtain ⟨hpath, hbackslash, -, -, hslash⟩ := plain_of_isAlphanum (isAlphanum_of_isSmallHex hhex)
      exact ⟨⟨hpath, hbackslash⟩, by simp [Url.isSlash, hslash, hbackslash]⟩
  have hlist : ("v1/policies/" ++ Policy.versionId uuid number).toList =
      "v1".toList ++ '/' :: ("policies".toList ++ '/' :: (Policy.versionId uuid number).toList) := by
    rw [String.toList_append]
    rfl
  have hfront : ∀ c ∈ "v1/policies/".toList, inPath c = false ∧ c ≠ '\\' := fun c hc => by
    have hall : ("v1/policies/".toList.all fun c => !inPath c && c != '\\') = true := by decide
    simpa using List.all_eq_true.1 hall c hc
  constructor
  · intro c hc
    rw [String.toList_append] at hc
    rcases List.mem_append.1 hc with hc | hc
    · exact hfront c hc
    · exact (hid c hc).1
  · have hpart : ∀ p ∈ ["v1", "policies"], ∀ c ∈ p.toList, Url.isSlash true c = false := fun p hp c hc => by
      have hall : (["v1", "policies"].all fun p => p.toList.all fun c => !Url.isSlash true c) = true := by
        decide
      simpa using List.all_eq_true.1 (List.all_eq_true.1 hall p hp) c hc
    rw [hlist, parts_append _ (hpart "v1" (by simp)) (by decide),
      parts_append _ (hpart "policies" (by simp)) (by decide), parts_of_forall fun c hc => (hid c hc).2]
    intro p hp
    simp only [List.mem_cons, List.not_mem_nil, or_false] at hp
    rcases hp with rfl | rfl | rfl
    · decide
    · decide
    · -- an id starts with a digit of the UUID
      obtain ⟨c, cs, hcs⟩ := List.exists_cons_of_ne_nil
        (fun hnil => huuid.ne_empty (String.toList_eq_nil_iff.1 hnil) : uuid.toList ≠ [])
      have hnone : Path.points (Policy.versionId uuid number).toList = none := by
        rw [Policy.versionId, String.toList_ofList, hcs, List.cons_append]
        rcases huuid.digits c (hcs ▸ List.mem_cons_self) with rfl | hhex
        · exact points_cons_of_ne (by decide) (by decide) _
        · obtain ⟨-, -, hpoint, hpercent, -⟩ := plain_of_isAlphanum (isAlphanum_of_isSmallHex hhex)
          exact points_cons_of_ne hpoint hpercent _
      rw [hnone]
      simp

section Addresses

variable {u url : Url} {base : String}

/-- What is under a base can be sent to. -/
theorem isSendable_of_base (hu : u.IsBase base) (hscheme : url.scheme = u.scheme)
    (hauthority : url.authority? = u.authority?) (verb : Verb) (content? : Option Content) :
    Request.isSendable ⟨verb, url, userAgent, content?⟩ = true := by
  have hhost : url.hasHost = true := by
    have hown := hu.host
    rwa [Url.hasHost, ← hauthority] at hown
  rw [Request.isSendable, hhost, hscheme]
  rcases hu.web with hweb | hweb
  · rw [hweb]
    rfl
  · rw [hweb]
    rfl

@[simp] theorem target_withoutUser (url : Url) : url.withoutUser.target = url.target := by
  obtain ⟨scheme, authority?, path, query?, fragment?⟩ := url
  cases authority? <;> rfl

/-- Where the policy of a version is: under the base, and under its id. -/
theorem policyAddress_url {c : Client} (hu : u.IsBase c.base) {uuid : String} (huuid : IsUuid uuid)
    (number : UInt32) :
    ∃ url, Url.ofText? (c.policyAddress (Policy.versionId uuid number)) = .ok url ∧
      url.target = u.target ++ "v1/policies/" ++ Policy.versionId uuid number ∧
      ∀ verb content?, Request.isSendable ⟨verb, url, userAgent, content?⟩ = true := by
  obtain ⟨url, hread, hscheme, hauthority, htarget⟩ :=
    hu.target_append (isPlain_policy huuid number)
  refine ⟨url, ?_, by rw [htarget, String.append_assoc], isSendable_of_base hu hscheme hauthority⟩
  rw [policyAddress, String.append_assoc,
    show "/v1/policies/" = "/" ++ "v1/policies/" from rfl, String.append_assoc, ← String.append_assoc]
  exact hread

/-- Where a document of data is: under the base. -/
theorem dataAddress_url {c : Client} (hu : u.IsBase c.base) (path : String) :
    ∃ url, Url.ofText? (c.dataAddress path) = .ok url ∧
      ∀ verb content?, Request.isSendable ⟨verb, url, userAgent, content?⟩ = true := by
  obtain ⟨url, hread, hscheme, hauthority⟩ :=
    hu.ofText?_append ("v1/data/" ++ path ++ if c.explain then "?explain=full" else "")
  refine ⟨url, ?_, isSendable_of_base hu hscheme hauthority⟩
  rw [dataAddress, show "/v1/data/" = "/" ++ "v1/data/" from rfl]
  simpa only [String.append_assoc] using hread

end Addresses

/-! ## Loading -/

/-- What is exchanged to load a policy, and what comes of it. -/
inductive Loading (get put : Http.Request) (policyId : String) :
    List (Exchange wire) → Except EngineError Unit → Prop
  | present {r : Response} (found : r.status = 200) : Loading get put policyId [⟨get, .ok r⟩] (.ok ())
  | published {r s : Response} (missing : r.status = 404) (success : s.isSuccess = true) :
      Loading get put policyId [⟨get, .ok r⟩, ⟨put, .ok s⟩] (.ok ())
  | unpublished {r : Response} {reply : Except String Response} {message : String}
      (missing : r.status = 404) (failure : ∀ s, reply = .ok s → s.isSuccess = false) :
      Loading get put policyId [⟨get, .ok r⟩, ⟨put, reply⟩] (.error (.publishing policyId message))
  | unknown {reply : Except String Response} {message : String}
      (unexpected : ∀ r, reply = .ok r → r.status ≠ 200 ∧ r.status ≠ 404) :
      Loading get put policyId [⟨get, reply⟩] (.error (.lookingUp policyId message))

/-- Loading makes no other requests. -/
theorem Loading.request_eq {get put : Http.Request} {policyId : String} {calls : List (Exchange wire)}
    {r : Except EngineError Unit} (h : Loading get put policyId calls r) {x : Exchange wire}
    (hx : x ∈ calls) : x.request = get ∨ x.request = put := by
  cases h with
  | present | unknown =>
    obtain rfl := List.mem_singleton.1 hx
    exact .inl rfl
  | published | unpublished =>
    rcases List.mem_cons.1 hx with rfl | hx
    · exact .inl rfl
    · obtain rfl := List.mem_singleton.1 hx
      exact .inr rfl

/-- The last of its requests is about the policy, too. -/
theorem Loading.exists_last {url : Url} {content? : Option Content} {policyId : String}
    {calls : List (Exchange wire)} {r : Except EngineError Unit}
    (h : Loading (request .get url none) (request .put url content?) policyId calls r) :
    ∃ front x, calls = front ++ [x] ∧ x.request.url.target = url.target := by
  have hlast : ∃ front x, calls = front ++ [x] := by
    cases h with
    | present | unknown => exact ⟨[], _, rfl⟩
    | published | unpublished => exact ⟨[_], _, rfl⟩
  obtain ⟨front, x, rfl⟩ := hlast
  refine ⟨front, x, rfl, ?_⟩
  rcases h.request_eq (List.mem_append_right _ (List.mem_singleton_self x)) with hx | hx
  · rw [hx]
    exact target_withoutUser url
  · rw [hx]
    exact target_withoutUser url

section Loading

variable {c : Client} {log log' : List (Exchange wire)} {policyId rego : String} {url : Url}

/-- The question whether there is a policy. -/
theorem ends_isLoaded (hurl : Url.ofText? (c.policyAddress policyId) = .ok url)
    (hsendable : ∀ verb content?, Request.isSendable ⟨verb, url, userAgent, content?⟩ = true)
    {r : Except EngineError Bool} (he : Ends anyPeer (c.isLoaded policyId) log r log') :
    ∃ reply : Except String Response, log' = log ++ [⟨request .get url none, reply⟩] ∧
      ((∃ s, reply = .ok s ∧ s.status = 200 ∧ r = .ok true) ∨
        (∃ s, reply = .ok s ∧ s.status = 404 ∧ r = .ok false) ∨
        ((∀ s, reply = .ok s → s.status ≠ 200 ∧ s.status ≠ 404) ∧ ∃ e, r = .error e)) := by
  rcases ends_exchange_bind hurl (hsendable _ _) he with ⟨s, he⟩ | ⟨words, rfl, rfl⟩
  · by_cases hfound : s.status = 200
    · rw [if_pos hfound] at he
      obtain ⟨rfl, rfl⟩ := ends_pure.1 he
      exact ⟨.ok s, rfl, .inl ⟨s, rfl, hfound, rfl⟩⟩
    · rw [if_neg hfound] at he
      by_cases hmissing : s.status = 404
      · rw [if_pos hmissing] at he
        obtain ⟨rfl, rfl⟩ := ends_pure.1 he
        exact ⟨.ok s, rfl, .inr (.inl ⟨s, rfl, hmissing, rfl⟩)⟩
      · -- any other status is as bad as none
        rw [if_neg hmissing] at he
        obtain ⟨rfl, rfl⟩ := ends_throw.1 he
        refine ⟨.ok s, rfl, .inr (.inr ⟨fun s' hs' => ?_, _, rfl⟩)⟩
        obtain rfl := Except.ok.inj hs'
        exact ⟨hfound, hmissing⟩
  · exact ⟨.error words, rfl, .inr (.inr ⟨fun s hs => (nomatch hs), _, rfl⟩)⟩

/-- The policy that is put. -/
theorem ends_publish (hurl : Url.ofText? (c.policyAddress policyId) = .ok url)
    (hsendable : ∀ verb content?, Request.isSendable ⟨verb, url, userAgent, content?⟩ = true)
    {r : Except EngineError Unit} (he : Ends anyPeer (c.publish policyId rego) log r log') :
    ∃ reply : Except String Response,
      log' = log ++ [⟨request .put url (some (.plain rego)), reply⟩] ∧
      ((∃ s, reply = .ok s ∧ s.isSuccess = true ∧ r = .ok ()) ∨
        ((∀ s, reply = .ok s → s.isSuccess = false) ∧ ∃ e, r = .error e)) := by
  rcases ends_exchange_bind hurl (hsendable _ _) he with ⟨s, he⟩ | ⟨words, rfl, rfl⟩
  · by_cases hsuccess : s.isSuccess = true
    · rw [if_pos hsuccess] at he
      obtain ⟨rfl, rfl⟩ := ends_pure.1 he
      exact ⟨.ok s, rfl, .inl ⟨s, rfl, hsuccess, rfl⟩⟩
    · rw [if_neg hsuccess] at he
      obtain ⟨rfl, rfl⟩ := ends_throw.1 he
      refine ⟨.ok s, rfl, .inr ⟨fun s' hs' => ?_, _, rfl⟩⟩
      obtain rfl := Except.ok.inj hs'
      simpa using hsuccess
  · exact ⟨.error words, rfl, .inr ⟨fun s hs => (nomatch hs), _, rfl⟩⟩

/-- **Loading asks once, and puts once if there is nothing.** -/
theorem ends_load (hurl : Url.ofText? (c.policyAddress policyId) = .ok url)
    (hsendable : ∀ verb content?, Request.isSendable ⟨verb, url, userAgent, content?⟩ = true)
    {r : Except EngineError Unit} (he : Ends anyPeer (c.load policyId rego) log r log') :
    ∃ calls, log' = log ++ calls ∧
      Loading (request .get url none) (request .put url (some (.plain rego))) policyId calls r := by
  rcases ends_bind.1 he with ⟨loaded, m, hlooked, he⟩ | ⟨e, hlooked, rfl⟩
  · obtain ⟨r', hasked, hr'⟩ := ends_adapt.1 hlooked
    obtain ⟨reply, rfl, hcases⟩ := ends_isLoaded hurl hsendable hasked
    rcases hcases with ⟨s, rfl, hfound, rfl⟩ | ⟨s, rfl, hmissing, rfl⟩ | ⟨-, e, rfl⟩
    · obtain rfl : loaded = true := Except.ok.inj hr'
      obtain ⟨rfl, rfl⟩ := ends_pure.1 he
      exact ⟨_, rfl, .present hfound⟩
    · obtain rfl : loaded = false := Except.ok.inj hr'
      rw [if_neg Bool.false_ne_true] at he
      obtain ⟨r'', hput, rfl⟩ := ends_adapt.1 he
      obtain ⟨reply, rfl, hcases⟩ := ends_publish hurl hsendable hput
      refine ⟨_, List.append_assoc .., ?_⟩
      rcases hcases with ⟨s', rfl, hsuccess, rfl⟩ | ⟨hfailure, e, rfl⟩
      · exact .published hmissing hsuccess
      · exact .unpublished hmissing hfailure
    · exact nomatch hr'
  · obtain ⟨r', hasked, hr'⟩ := ends_adapt.1 hlooked
    obtain ⟨reply, rfl, hcases⟩ := ends_isLoaded hurl hsendable hasked
    rcases hcases with ⟨s, -, -, h⟩ | ⟨s, -, -, h⟩ | ⟨hunexpected, e', h⟩
    · rw [h] at hr'
      contradiction
    · rw [h] at hr'
      contradiction
    · rw [h] at hr'
      rw [Except.error.inj hr']
      exact ⟨_, rfl, .unknown hunexpected⟩

end Loading

/-! ## Answers -/

end RuleEngine.Client

namespace RuleEngine

open Json

/-- What an engine answers: a result, if there is one, and an explanation. -/
structure Answer where
  result? : Option Outcome
  explanation? : Option (List Json)

namespace Answer

/-- The answer that a value is. -/
def ofJson? (value : Json) : Option Answer := do
  let r ← Record.ofJson? ["result", "explanation"] value
  return {
    result? := ← r.optional "result" Outcome.ofJson?
    explanation? := ← r.optional "explanation" (items? some) }

/-- The evaluation in an answer. -/
def evaluation (a : Answer) : Evaluation := ⟨a.result?.getD .failing, a.explanation?⟩

/-- An evaluation is read from a text through the answer that the text is. -/
theorem decode?_ofAnswer? (text : String) :
    Json.decode? Evaluation.ofAnswer? text = (Json.decode? ofJson? text).map evaluation := by
  rw [← Json.decode?_map]
  congr
  funext value
  rw [Evaluation.ofAnswer?, ofJson?]
  cases Record.ofJson? ["result", "explanation"] value with
  | none => rfl
  | some r =>
    show (r.optional "result" Outcome.ofJson? >>= fun _ => _) = ((r.optional "result" _ >>= _).map _)
    cases r.optional "result" Outcome.ofJson? with
    | none => rfl
    | some result? =>
      show (r.optional "explanation" (items? some) >>= fun _ => _) =
        ((r.optional "explanation" _ >>= _).map _)
      cases r.optional "explanation" (items? some) <;> rfl

end Answer

/-- The text is an answer with a result that passes. -/
def SaysPass (text : String) : Prop :=
  ∃ a o, Json.decode? Answer.ofJson? text = some a ∧ a.result? = some o ∧ o.pass = true

end RuleEngine

namespace RuleEngine.Client

/-! ## Evaluating -/

/-- What is exchanged to evaluate a policy, and what comes of it. -/
inductive Evaluating (post : Http.Request) :
    List (Exchange wire) → Except EngineError Evaluation → Prop
  | answered {r : Response} {a : Answer} (success : r.isSuccess = true)
      (decoded : Json.decode? Answer.ofJson? r.content = some a) :
      Evaluating post [⟨post, .ok r⟩] (.ok a.evaluation)
  | failed {reply : Except String Response} {e : EngineError}
      (failure : ∀ r, reply = .ok r → r.isSuccess = true →
        Json.decode? Answer.ofJson? r.content = none) :
      Evaluating post [⟨post, reply⟩] (.error e)

theorem Evaluating.exists_reply {post : Http.Request} {calls : List (Exchange wire)}
    {r : Except EngineError Evaluation} (h : Evaluating post calls r) :
    ∃ reply : Except String Response, calls = [⟨post, reply⟩] := by
  cases h with
  | answered => exact ⟨_, rfl⟩
  | failed => exact ⟨_, rfl⟩

section Evaluating

variable {c : Client} {log log' : List (Exchange wire)} {rego path : String} {input : Json} {url : Url}

/-- Nothing is asked for a source that names no package. -/
theorem ends_evaluate_unread {e : Rego.SyntaxError} (hpath : Rego.packagePath? rego = .error e)
    {r : Except EngineError Evaluation} (he : Ends anyPeer (c.evaluate rego input) log r log') :
    log' = log ∧ r = .error (.invalidPolicy e.message) := by
  rw [evaluate, hpath] at he
  obtain ⟨rfl, rfl⟩ := ends_throw.1 he
  exact ⟨rfl, rfl⟩

/-- **Evaluating asks once.** -/
theorem ends_evaluate (hpath : Rego.packagePath? rego = .ok path)
    (hurl : Url.ofText? (c.dataAddress path) = .ok url)
    (hsendable : ∀ verb content?, Request.isSendable ⟨verb, url, userAgent, content?⟩ = true)
    {r : Except EngineError Evaluation} (he : Ends anyPeer (c.evaluate rego input) log r log') :
    ∃ calls, log' = log ++ calls ∧
      Evaluating (request .post url (some (.json (.object [("input", input)])))) calls r := by
  rw [evaluate, hpath] at he
  rcases ends_exchange_bind hurl (hsendable _ _) he with ⟨s, he⟩ | ⟨words, rfl, rfl⟩
  · by_cases hsuccess : s.isSuccess = true
    · rw [hsuccess, Bool.not_true, if_neg Bool.false_ne_true, Answer.decode?_ofAnswer?] at he
      cases hdecoded : Json.decode? Answer.ofJson? s.content with
      | some a =>
        rw [hdecoded] at he
        obtain ⟨rfl, rfl⟩ := ends_pure.1 he
        exact ⟨_, rfl, .answered hsuccess hdecoded⟩
      | none =>
        -- a success that says nothing readable
        rw [hdecoded] at he
        obtain ⟨rfl, rfl⟩ := ends_throw.1 he
        refine ⟨_, rfl, .failed fun s' hs' _ => ?_⟩
        obtain rfl := Except.ok.inj hs'
        exact hdecoded
    · rw [Bool.not_eq_true] at hsuccess
      rw [hsuccess, Bool.not_false, if_pos rfl] at he
      obtain ⟨rfl, rfl⟩ := ends_throw.1 he
      refine ⟨_, rfl, .failed fun s' hs' htrue => ?_⟩
      obtain rfl := Except.ok.inj hs'
      rw [hsuccess] at htrue
      contradiction
  · exact ⟨_, rfl, .failed fun s hs => nomatch hs⟩

/-- In these exchanges an input was posted to the document of a source's package, and the answer was a
success that says that it passes. -/
def Passed (c : Client) (rego : String) (input : Json) (calls : List (Exchange wire)) : Prop :=
  ∃ path url r, Rego.packagePath? rego = .ok path ∧ Url.ofText? (c.dataAddress path) = .ok url ∧
    ⟨request .post url (some (.json (.object [("input", input)]))), .ok r⟩ ∈ calls ∧
    r.isSuccess = true ∧ SaysPass r.content

theorem Passed.mono {calls more : List (Exchange wire)} (h : c.Passed rego input calls)
    (hsubset : calls ⊆ more) : c.Passed rego input more := by
  obtain ⟨path, url, r, hpath, hurl, hmem, hanswer⟩ := h
  exact ⟨path, url, r, hpath, hurl, hsubset hmem, hanswer⟩

end Evaluating
end RuleEngine.Client
end Gatehouse
