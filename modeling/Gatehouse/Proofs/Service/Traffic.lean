import Gatehouse.Proofs.RuleEngine.Protocol
import Gatehouse.Proofs.Service.Run
import Gatehouse.Service.Network

/-!
# The service on a network

On a network the service asks its collaborators by exchanges with peers, and the peers may reply what
they like.  What happens there is what may happen to the service on its own, with the exchanges over the
wire in which its questions are conveyed.  So what is proved of the service holds on the network, and
more is known there: an answer of the rule engine is what the client made of a reply.

1. **Settings** (`traffic`).  The store, the clock and the fresh ids are those of the surroundings of the
   service; the wire is open to any reply.
2. **Conveying** (`Peers.Conveys`) says which exchanges over the wire an exchange of the service took.
3. **The crux** is one request (`Peers.runs_answer`).  Programs go request by request
   (`Peers.runs_perform`), and what is reached goes call by call (`Peers.reaches_iff`).
-/

namespace Gatehouse.Service

open Store Http

/-! ## Settings -/

/-- What is stored, which ids were given, and what was exchanged over the wire. -/
structure Traffic where
  memory : Memory
  given : List String
  wire : List (Exchange wire)

namespace Traffic

/-- Nothing has happened. -/
def initial : Traffic := ⟨.empty, [], []⟩

/-- The reply may be given. -/
def allows (n : Traffic) : (r : NetworkRequest) → r.Reply → Prop
  | .store c, reply => reply = (Memory.perform c n.memory).1
  | .exchange _, _ => True
  | .now, time => Instant.IsKept time
  | .freshId, id => Text.IsUuid id ∧ id ∉ n.given

/-- The state after a request and its reply. -/
def after (n : Traffic) : (r : NetworkRequest) → r.Reply → Traffic
  | .store c, _ => { n with memory := (Memory.perform c n.memory).2 }
  | .exchange r, reply => { n with wire := n.wire ++ [⟨r, reply⟩] }
  | .now, _ => n
  | .freshId, id => { n with given := n.given ++ [id] }

end Traffic

/-- The surroundings of a service on a network. -/
def traffic : Setting network Traffic := ⟨Traffic.allows, Traffic.after⟩

/-- A state of the service with what was exchanged over the wire. -/
def State.withWire (s : State) (calls : List (Exchange wire)) : Traffic := ⟨s.memory, s.given, calls⟩

/-! ## Conveying -/

/-- Talking to a peer over the wire of a network is talking to a peer, and changes nothing else. -/
theorem runs_exchange {α : Type} {c : Program wire α} {n n' : Traffic} {a : α} :
    (c.reword fun (r : Http.Request) => Program.request (S := network) (.exchange r)).Runs traffic n a n' ↔
      ∃ calls, c.Runs anyPeer [] a calls ∧ n' = { n with wire := n.wire ++ calls } := by
  induction c generalizing n with
  | done b =>
    rw [Program.reword, Program.runs_done]
    constructor
    · rintro ⟨rfl, rfl⟩
      exact ⟨[], Program.runs_done.2 ⟨rfl, rfl⟩, by rw [List.append_nil]⟩
    · rintro ⟨calls, hdone, rfl⟩
      obtain ⟨rfl, rfl⟩ := Program.runs_done.1 hdone
      exact ⟨rfl, by rw [List.append_nil]⟩
  | ask r next ih =>
    rw [Program.reword, Program.runs_bind]
    constructor
    · rintro ⟨reply, m, hreply, hrest⟩
      obtain ⟨-, rfl⟩ := Program.runs_request.1 hreply
      obtain ⟨calls, hcalls, rfl⟩ := (ih reply).1 hrest
      refine ⟨[⟨r, reply⟩] ++ calls, Program.runs_ask.2 ⟨reply, trivial, ?_⟩, ?_⟩
      · exact runs_anyPeer.2 ⟨calls, rfl, hcalls⟩
      · simp [traffic, Traffic.after]
    · rintro ⟨_, hfirst, rfl⟩
      obtain ⟨reply, -, hrest⟩ := Program.runs_ask.1 hfirst
      obtain ⟨calls, rfl, hcalls⟩ := runs_anyPeer.1 hrest
      refine ⟨reply, _, Program.runs_request.2 ⟨trivial, rfl⟩, (ih reply).2 ⟨calls, hcalls, ?_⟩⟩
      simp [traffic, Traffic.after, anyPeer]

namespace Peers

variable {p : Peers}

/-- The exchanges over the wire that an exchange of the service took: questions to a peer take what the
client makes of them, and all other questions take none. -/
def Conveys (p : Peers) : Exchange effects → List (Exchange wire) → Prop
  | ⟨.listOccurrences r, reply⟩, calls => Ends anyPeer (p.occurrences.list r) [] reply calls
  | ⟨.load policyId rego, reply⟩, calls => Ends anyPeer (p.engine.load policyId rego) [] reply calls
  | ⟨.evaluate rego input, reply⟩, calls => Ends anyPeer (p.engine.evaluate rego input) [] reply calls
  | _, calls => calls = []

theorem runs_overWire {ε α : Type} {c : Http.Client ε α} {n n' : Traffic} {r : Except ε α} :
    (overWire c).Runs traffic n r n' ↔
      ∃ calls, Ends anyPeer c [] r calls ∧ n' = { n with wire := n.wire ++ calls } := by
  simp only [ends_iff]
  exact runs_exchange

/-- **One request on the network** is the request of the service, conveyed. -/
theorem runs_answer {q : Request} {reply : q.Reply} {s : State} {log : List (Exchange wire)} {n : Traffic} :
    (p.answer q).Runs traffic (s.withWire log) reply n ↔
      s.allows q reply ∧ ∃ calls, p.Conveys ⟨q, reply⟩ calls ∧
        n = (s.after q reply).withWire (log ++ calls) := by
  have hsame : ∀ q : Request, q ≠ .freshId → q.isWrite = false → ∀ (reply : q.Reply) calls,
      (s.after q reply).withWire calls = s.withWire calls := fun q hid hread reply calls => by
    simp only [State.withWire, State.after_memory_of_not_isWrite hread, State.given_after_of_ne hid]
  cases q with
  | store c =>
    have hgiven : (s.after (.store c) reply).given = s.given := State.given_after_of_ne (by simp) _
    show (Program.request _).Runs _ _ _ _ ↔ _
    rw [Program.runs_request]
    simp only [Conveys, State.withWire, hgiven, exists_eq_left, List.append_nil]
    exact Iff.rfl
  | listOccurrences r =>
    show (overWire _).Runs _ _ _ _ ↔ _
    rw [runs_overWire]
    simp only [hsame (.listOccurrences r) (by simp) rfl]
    exact ⟨fun h => ⟨trivial, h⟩, And.right⟩
  | load policyId rego =>
    show (overWire _).Runs _ _ _ _ ↔ _
    rw [runs_overWire]
    simp only [hsame (.load policyId rego) (by simp) rfl]
    exact ⟨fun h => ⟨trivial, h⟩, And.right⟩
  | evaluate rego input =>
    show (overWire _).Runs _ _ _ _ ↔ _
    rw [runs_overWire]
    simp only [hsame (.evaluate rego input) (by simp) rfl]
    exact ⟨fun h => ⟨trivial, h⟩, And.right⟩
  | now =>
    show (Program.request _).Runs _ _ _ _ ↔ _
    rw [Program.runs_request]
    simp only [hsame .now (by simp) rfl, Conveys, exists_eq_left, List.append_nil]
    exact Iff.rfl
  | freshId =>
    show (Program.request _).Runs _ _ _ _ ↔ _
    rw [Program.runs_request]
    simp only [Conveys, State.withWire, State.given_after_freshId, exists_eq_left, List.append_nil]
    exact Iff.rfl

/-- **A program on the network** is a program of the service, whose questions are conveyed one after the
other. -/
theorem runs_perform {α : Type} {a : Program effects α} {x : α} {s : State} {log : List (Exchange wire)}
    {n : Traffic} :
    (a.reword p.answer).Runs traffic (s.withWire log) x n ↔
      ∃ (t : State) (ys : List (Exchange effects × List (Exchange wire))), a.Runs surroundings s x t ∧
        t.log = s.log ++ ys.map Prod.fst ∧ (∀ y ∈ ys, p.Conveys y.1 y.2) ∧
        n = t.withWire (log ++ ys.flatMap Prod.snd) := by
  induction a generalizing s log with
  | done b =>
    rw [Program.reword, Program.runs_done]
    constructor
    · rintro ⟨rfl, rfl⟩
      exact ⟨s, [], Program.runs_done.2 ⟨rfl, rfl⟩, by simp, by simp, by simp⟩
    · rintro ⟨t, ys, hdone, hlog, -, rfl⟩
      obtain ⟨rfl, rfl⟩ := Program.runs_done.1 hdone
      obtain rfl : ys = [] := by simpa using hlog
      exact ⟨rfl, by simp⟩
  | ask q next ih =>
    rw [Program.reword, Program.runs_bind]
    constructor
    · rintro ⟨reply, m, hreply, hrest⟩
      obtain ⟨hallows, calls, hcalls, rfl⟩ := runs_answer.1 hreply
      obtain ⟨t, ys, hruns, hlog, hys, rfl⟩ := (ih reply).1 hrest
      refine ⟨t, ⟨⟨q, reply⟩, calls⟩ :: ys, Program.runs_ask.2 ⟨reply, hallows, hruns⟩, ?_, ?_, ?_⟩
      · rw [hlog, State.after_log, List.map_cons, List.append_assoc, List.singleton_append]
      · exact List.forall_mem_cons.2 ⟨hcalls, hys⟩
      · rw [List.flatMap_cons, List.append_assoc]
    · rintro ⟨t, ys, hruns, hlog, hys, rfl⟩
      obtain ⟨reply, hallows, hrest⟩ := Program.runs_ask.1 hruns
      -- the log tells that the first thing conveyed is this request with its reply
      obtain ⟨more, hmore⟩ := hrest.log_isPrefix
      have hsplit : [⟨q, reply⟩] ++ more = ys.map Prod.fst :=
        List.append_cancel_left ((List.append_assoc ..).symm.trans (hmore.trans hlog))
      obtain ⟨⟨_, calls⟩, ys, rfl, rfl, rfl⟩ := List.map_eq_cons_iff.1 hsplit.symm
      obtain ⟨hcalls, hys⟩ := List.forall_mem_cons.1 hys
      refine ⟨reply, _, runs_answer.2 ⟨hallows, calls, hcalls, rfl⟩, (ih reply).2 ⟨t, ys, hrest, ?_, hys, ?_⟩⟩
      · exact hmore.symm
      · rw [List.flatMap_cons, List.append_assoc]

end Peers

/-! ## Following -/

section Following

variable {p : Peers} {u : Url} {s t : State} {n n' : Traffic}

/-- Since the states `s` and `n` the service has come to `t` and the network to `n'`. -/
structure Follows (p : Peers) (s : State) (n : Traffic) (t : State) (n' : Traffic) : Prop where
  memory : n'.memory = t.memory
  given : n'.given = t.given
  exchanges : ∃ asked calls, t.log = s.log ++ asked ∧ n'.wire = n.wire ++ calls ∧
    ∀ rego input v, ⟨.evaluate rego input, .ok v⟩ ∈ asked → v.pass = true →
      p.engine.Passed rego input calls

/-- What calls of the service on a network lead to. -/
inductive Peers.Reaches (p : Peers) (svc : Service) : Traffic → Prop
  | initial : p.Reaches svc .initial
  | call {n n' : Traffic} {caller : Access.Caller} {o : Operation} {r : Except ServiceError o.Result}
      (before : p.Reaches svc n) (run : (p.perform (svc.perform caller o)).Runs traffic n r n') :
      p.Reaches svc n'

variable {svc : Service}

/-- What the service goes on to on its own, with its questions conveyed, it reaches on the network. -/
theorem Peers.Reaches.run {steps : List Step} {log : List (Exchange wire)}
    (hs : p.Reaches svc (s.withWire log)) (hrun : Run svc s steps t)
    {ys : List (Exchange effects × List (Exchange wire))} (hlog : t.log = s.log ++ ys.map Prod.fst)
    (hys : ∀ y ∈ ys, p.Conveys y.1 y.2) :
    p.Reaches svc (t.withWire (log ++ ys.flatMap Prod.snd)) := by
  induction hrun generalizing log ys with
  | nil s =>
    obtain rfl : ys = [] := by simpa using hlog
    simpa using hs
  | @cons x steps t call rest ih =>
    obtain ⟨xs, hxs⟩ := call.log_isPrefix
    obtain ⟨zs, hzs⟩ := rest.log_isPrefix
    -- what was conveyed is parted where the first call ends
    have hparts : ys.map Prod.fst = xs ++ zs := by
      have hall : x.before.log ++ ys.map Prod.fst = x.before.log ++ (xs ++ zs) := by
        rw [← hlog, ← hzs, ← hxs, List.append_assoc]
      exact List.append_cancel_left hall
    obtain ⟨us, vs, rfl, rfl, rfl⟩ := List.map_eq_append_iff.1 hparts
    obtain ⟨hus, hvs⟩ := List.forall_mem_append.1 hys
    have hcall := hs.call (runs_perform.2 ⟨x.after, us, ends_iff.1 call, hxs.symm, hus, rfl⟩)
    have hrest := ih hcall hzs.symm hvs
    rwa [List.append_assoc, ← List.flatMap_append] at hrest

/-- **What is reached on a network** is what the service reaches on its own, with the exchanges in which
its questions were conveyed. -/
theorem Peers.reaches_iff : p.Reaches svc n ↔
    ∃ (steps : List Step) (s : State) (ys : List (Exchange effects × List (Exchange wire))),
      Run svc .initial steps s ∧ s.log = ys.map Prod.fst ∧ (∀ y ∈ ys, p.Conveys y.1 y.2) ∧
      n = s.withWire (ys.flatMap Prod.snd) := by
  constructor
  · intro hn
    induction hn with
    | initial => exact ⟨[], .initial, [], .nil _, rfl, by simp, rfl⟩
    | @call n n' caller o r _ run ih =>
      obtain ⟨steps, s, ys, hrun, hlog, hys, rfl⟩ := ih
      obtain ⟨t, zs, he, hmore, hzs, rfl⟩ := runs_perform.1 run
      let x : Step := ⟨caller, o, r, s, t⟩
      refine ⟨steps ++ [x], t, ys ++ zs, hrun.append (.cons (x := x) (ends_iff.2 he) (.nil t)), ?_, ?_, ?_⟩
      · rw [hmore, hlog, List.map_append]
      · exact List.forall_mem_append.2 ⟨hys, hzs⟩
      · rw [List.flatMap_append]
  · rintro ⟨steps, s, ys, hrun, hlog, hys, rfl⟩
    have hinitial : p.Reaches svc (State.initial.withWire []) := .initial
    exact hinitial.run hrun hlog hys

/-- What is reached on a network keeps holdings. -/
theorem Peers.Reaches.keeps (hn : p.Reaches svc n) :
    ∃ (s : State) (h : Holdings), n.memory = s.memory ∧ n.given = s.given ∧ s.Keeps h := by
  obtain ⟨steps, s, ys, hrun, -, -, rfl⟩ := reaches_iff.1 hn
  obtain ⟨h, hs⟩ := hrun.keeps State.keeps_initial
  exact ⟨s, h, rfl, rfl, hs⟩

end Following
end Gatehouse.Service
