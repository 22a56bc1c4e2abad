import Gatehouse.Proofs.Effect.Interleaving
import Gatehouse.Proofs.Service.Gate
import Gatehouse.Proofs.Service.Restraint

/-!
# Calls at the same time

The service holds nothing itself, so calls that overlap meet in the store alone.  A call is a sequence of
requests, and between two of them the store may be changed by any other call.

1. **Courses.**  A course is a state of the service together with the turns that led there: which call
   asked what, and what it was told.  The state's log says the same without the names of the calls.
2. **Calls at the same time** (`Concurrently`) are the interleavings of their programs, each on the
   surroundings that the others leave it.  Nothing is said of their number, and none has to end.
3. **Terms** (`Terms`) are a pact of all calls: an invariant of courses that requests which write nothing
   keep, and a way in which courses grow.
4. **The rules.**  An action that only reads, and asks once, ends as it would alone in the state that it
   finds (`Reads.withstands_bind`).  So what was proved of its ends serves here too, and only writes are
   looked at afresh (`withstands_attempt_bind`, `withstands_call_bind`).
5. **Gathering** (`Gathers`).  What a call finds out in many requests, before it writes, is put together
   from what it is told in each (`Reads.gathers_bind`, `Gathers.mapM`).
-/

namespace Gatehouse

open Service Store

namespace Service

variable {ι α β : Type}

/-! ## Courses -/

/-- A call asked something and was told something. -/
structure Turn (ι : Type) where
  call : ι
  exchange : Exchange effects

/-- A state, and the turns that led there. -/
structure Course (ι : Type) where
  state : State
  turns : List (Turn ι)

namespace Course

/-- No call has taken a turn yet. -/
def start (s : State) : Course ι := ⟨s, []⟩

/-- The course after a turn of a call. -/
def after (c : Course ι) (i : ι) (q : Request) (reply : q.Reply) : Course ι :=
  ⟨c.state.after q reply, c.turns ++ [⟨i, ⟨q, reply⟩⟩]⟩

@[simp] theorem after_state (c : Course ι) (i : ι) (q : Request) (reply : q.Reply) :
    (c.after i q reply).state = c.state.after q reply := rfl

@[simp] theorem after_turns (c : Course ι) (i : ι) (q : Request) (reply : q.Reply) :
    (c.after i q reply).turns = c.turns ++ [⟨i, ⟨q, reply⟩⟩] := rfl

/-- Some more turns were taken, only such ones. -/
def Continues (P : Turn ι → Prop) (c d : Course ι) : Prop :=
  ∃ more : List (Turn ι), d.turns = c.turns ++ more ∧
    d.state.log = c.state.log ++ more.map Turn.exchange ∧ ∀ x ∈ more, P x

/-- All turns that were taken are those of other calls. -/
abbrev Waits (i : ι) : Course ι → Course ι → Prop := Continues fun x => x.call ≠ i

/-- All turns that were taken are those of one call, which wrote nothing. -/
abbrev Reads (i : ι) : Course ι → Course ι → Prop :=
  Continues fun x => x.call = i ∧ x.exchange.request.isWrite = false

/-- A call has written nothing; whatever the others have. -/
abbrev Idles (i : ι) : Course ι → Course ι → Prop :=
  Continues fun x => x.call = i → x.exchange.request.isWrite = false

namespace Continues

variable {P P' : Turn ι → Prop} {i : ι} {b c d : Course ι}

theorem refl (P : Turn ι → Prop) (c : Course ι) : c.Continues P c :=
  ⟨[], by simp, by simp, fun _ hx => absurd hx List.not_mem_nil⟩

theorem trans (h : b.Continues P c) (h' : c.Continues P d) : b.Continues P d := by
  obtain ⟨xs, hturns, hlog, hxs⟩ := h
  obtain ⟨ys, hturns', hlog', hys⟩ := h'
  refine ⟨xs ++ ys, ?_, ?_, fun x hx => (List.mem_append.1 hx).elim (hxs x) (hys x)⟩
  · rw [hturns', hturns, List.append_assoc]
  · rw [hlog', hlog, List.map_append, List.append_assoc]

theorem imp (h : c.Continues P d) (himp : ∀ x, P x → P' x) : c.Continues P' d := by
  obtain ⟨xs, hturns, hlog, hxs⟩ := h
  exact ⟨xs, hturns, hlog, fun x hx => himp x (hxs x hx)⟩

theorem after (P : Turn ι → Prop) (q : Request) (reply : q.Reply) (hP : P ⟨i, ⟨q, reply⟩⟩) :
    c.Continues P (c.after i q reply) :=
  ⟨[⟨i, ⟨q, reply⟩⟩], rfl, rfl, fun x hx => by rw [List.mem_singleton.1 hx]; exact hP⟩

theorem idles (h : c.Waits i d) : c.Idles i d := h.imp fun _ hne heq => absurd heq hne

theorem log_isPrefix (h : c.Continues P d) : c.state.log <+: d.state.log := by
  obtain ⟨xs, -, hlog, -⟩ := h
  exact ⟨_, hlog.symm⟩

theorem turns_isPrefix (h : c.Continues P d) : c.turns <+: d.turns := by
  obtain ⟨xs, hturns, -, -⟩ := h
  exact ⟨_, hturns.symm⟩

end Continues
end Course

/-- The surroundings of one call among others. -/
def among (i : ι) : Setting effects (Course ι) :=
  ⟨fun c q reply => c.state.allows q reply, fun c q reply => c.after i q reply⟩

/-- A call that runs undisturbed runs as if it were alone. -/
theorem runs_among {p : Program effects α} {i : ι} {c d : Course ι} {a : α}
    (h : p.Runs (among i) c a d) : p.Runs surroundings c.state a d.state := by
  induction p generalizing c with
  | done b =>
    obtain ⟨rfl, rfl⟩ := Program.runs_done.1 h
    exact Program.runs_done.2 ⟨rfl, rfl⟩
  | ask q next ih =>
    obtain ⟨reply, hreply, hrest⟩ := Program.runs_ask.1 h
    exact Program.runs_ask.2 ⟨reply, hreply, ih reply hrest⟩

/-- A call that could run alone may run undisturbed. -/
theorem exists_runs_among {p : Program effects α} (i : ι) {c : Course ι} {a : α} {t : State}
    (h : p.Runs surroundings c.state a t) : ∃ d : Course ι, d.state = t ∧ p.Runs (among i) c a d := by
  induction p generalizing c with
  | done b =>
    obtain ⟨rfl, rfl⟩ := Program.runs_done.1 h
    exact ⟨c, rfl, Program.runs_done.2 ⟨rfl, rfl⟩⟩
  | ask q next ih =>
    obtain ⟨reply, hreply, hrest⟩ := Program.runs_ask.1 h
    obtain ⟨d, hd, hruns⟩ := ih reply (c := c.after i q reply) hrest
    exact ⟨d, hd, Program.runs_ask.2 ⟨reply, hreply, hruns⟩⟩

/-- A call that runs undisturbed takes no more turns than it asks requests. -/
theorem length_turns_le {p : Program effects α} {i : ι} {c d : Course ι} {a : α}
    (h : p.Runs (among i) c a d) {n : Nat} (hn : p.AsksAtMost n) :
    d.turns.length ≤ c.turns.length + n := by
  induction p generalizing c n with
  | done b =>
    obtain ⟨-, rfl⟩ := Program.runs_done.1 h
    exact Nat.le_add_right _ _
  | ask q next ih =>
    cases n with
    | zero => exact absurd hn id
    | succ n =>
      obtain ⟨reply, -, hrest⟩ := Program.runs_ask.1 h
      have hle := ih reply hrest (hn reply)
      simp only [among, Course.after_turns, List.length_append, List.length_singleton] at hle
      omega

/-- A write that fails keeps what is kept. -/
theorem State.Keeps.after_of_error {s : State} {h : Holdings} (hs : s.Keeps h) {c : Call}
    {x : StoreError} (hreply : (Memory.perform c s.memory).1 = .error x) :
    (s.after (.store c) (.error x)).Keeps h where
  honest := hs.honest.after (q := .store c) hreply.symm
  holds := by
    rw [State.after_memory_store, perform_snd_of_error hreply]
    exact hs.holds
  sound := hs.sound.mono (List.prefix_append _ _)

/-- Assignments that were dropped in a bulk are not held any more, and everything else is. -/
theorem State.Keeps.after_drop {s : State} {h : Holdings} (hs : s.Keeps h) {as : List PolicyAssignment}
    (hreply : (Memory.perform (.bulk Shelf.policyAssignments.index (as.map fun a => .delete a.id))
      s.memory).1 = .ok ()) :
    (s.after (.store (.bulk Shelf.policyAssignments.index (as.map fun a => .delete a.id))) (.ok ())).Keeps
      { h with assignments := h.assignments.filter fun a => a.id ∉ as.map PolicyAssignment.id } where
  honest := hs.honest.after (q := .store (.bulk Shelf.policyAssignments.index _)) hreply.symm
  holds := by
    refine hs.holds.of_perform_bulk { h with
      assignments := h.assignments.filter fun a => a.id ∉ as.map PolicyAssignment.id } hreply ?_
      (Holdings.documents_frame (.inr rfl) (.inr rfl) (.inl rfl) (.inr rfl))
    have hwrites : as.map (fun a => Write.delete a.id) =
        (as.map PolicyAssignment.id).map Write.delete := by
      rw [List.map_map]
      rfl
    rw [hwrites, Write.foldl_delete, Holdings.documents, Holdings.documents, List.filter_map]
    rfl
  sound :=
    have hsound := hs.sound.mono (List.prefix_append _ _)
    { hsound with
      assignmentTimes := fun a ha => hsound.assignmentTimes a (List.mem_of_mem_filter ha) }

/-! ## Calls at the same time -/

/-- A call to the service: who calls, and for which operation. -/
structure Invocation where
  caller : Access.Caller
  operation : Operation

namespace Invocation

/-- What a call comes to. -/
abbrev Outcome (x : Invocation) : Type := Except ServiceError x.operation.Result

/-- What a call does. -/
def program (svc : Service) (x : Invocation) : Program effects x.Outcome :=
  (svc.perform x.caller x.operation).run

/-- An administrator's call is its action. -/
theorem program_administrator (o : Operation) :
    program lenient ⟨administrator, o⟩ = (o.action lenient.refusal).run := by
  rw [program, perform_of_not_denies]
  rw [denies_iff, administrator_allowed]
  decide

end Invocation

/-- What is left of each call. -/
abbrev Pool (calls : ι → Invocation) : Type := (i : ι) → Program effects (calls i).Outcome

/-- From one course to another the calls that are left in the one pool may have become those in the
other. -/
abbrev Proceeds [DecidableEq ι] {calls : ι → Invocation} :
    Pool calls → Course ι → Pool calls → Course ι → Prop := Interleaves among

/-- The calls are made in a state, at the same time, and so far have led to a course in which this is left
of them. -/
def Concurrently [DecidableEq ι] (svc : Service) (calls : ι → Invocation) (s : State) (pool : Pool calls)
    (c : Course ι) : Prop :=
  Proceeds (fun i => (calls i).program svc) (.start s) pool c

/-- What goes on continues the course. -/
theorem Proceeds.continues [DecidableEq ι] {calls : ι → Invocation} {pool pool' : Pool calls}
    {c d : Course ι} (h : Proceeds pool c pool' d) : c.Continues (fun _ => True) d := by
  induction h with
  | nil => exact .refl _ _
  | cons asks allows _ ih => exact (Course.Continues.after _ _ _ trivial).trans ih

/-- What an action could do alone, a call that is to do it may do while the others wait. -/
theorem exists_proceeds [DecidableEq ι] {calls : ι → Invocation} (pool : Pool calls) (i : ι)
    {c : Course ι} {a : Action α} {f : Except ServiceError α → Program effects (calls i).Outcome}
    {r : Except ServiceError α} {t : State} (hpool : pool i = a.run.bind f)
    (he : Ends surroundings a c.state r t) :
    ∃ d : Course ι, d.state = t ∧ Proceeds pool c (Function.update pool i (f r)) d ∧
      ∀ n, a.run.AsksAtMost n → d.turns.length ≤ c.turns.length + n := by
  obtain ⟨d, hd, hruns⟩ := exists_runs_among i (ends_iff.1 he)
  exact ⟨d, hd, .of_runs hpool hruns, fun n => length_turns_le hruns⟩

/-- And if it is all that is left of the call, the call is done. -/
theorem exists_proceeds_done [DecidableEq ι] {calls : ι → Invocation} (pool : Pool calls) (i : ι)
    {c : Course ι} {a : Action (calls i).operation.Result} {r : (calls i).Outcome} {t : State}
    (hpool : pool i = a.run) (he : Ends surroundings a c.state r t) :
    ∃ d : Course ι, d.state = t ∧ Proceeds pool c (Function.update pool i (.done r)) d ∧
      ∀ n, a.run.AsksAtMost n → d.turns.length ≤ c.turns.length + n :=
  exists_proceeds pool i (hpool.trans (Program.bind_done _).symm) he

/-! ## Terms -/

/-- What all calls agree upon: an invariant, how courses grow, and what is true of a call before it is
done.  Requests that write nothing keep the terms. -/
structure Terms (ι : Type) where
  inv : Course ι → Prop
  grows : Course ι → Course ι → Prop
  pending : ι → Course ι → Prop
  refl : ∀ c, grows c c
  trans : ∀ {b c d}, grows b c → grows c d → grows b d
  stable : ∀ {i c d}, c.Waits i d → pending i c → pending i d
  quiet : ∀ {i c} {q : Request} {reply : q.Reply}, q.isWrite = false → c.state.allows q reply → inv c →
    inv (c.after i q reply) ∧ grows c (c.after i q reply) ∧
      (pending i c → pending i (c.after i q reply))

/-- The terms, as far as they bind one call. -/
def Terms.pact (k : Terms ι) (i : ι) : Pact (Course ι) where
  inv := k.inv
  rely c d := c.Waits i d ∧ k.grows c d
  step := k.grows
  pending := k.pending i
  refl c := ⟨.refl _ c, k.refl c⟩
  trans h h' := ⟨h.1.trans h'.1, k.trans h.2 h'.2⟩
  stable h _ := k.stable h.1

/-- The action keeps the terms whatever the other calls do, and ends in `Q`. -/
def Withstands (k : Terms ι) (i : ι) (Q : Except ServiceError α → Course ι → Prop) (a : Action α)
    (c : Course ι) : Prop :=
  Program.Withstands (among i) (k.pact i) Q a.run c

/-- An action was carried out at once, after some turns of the others. -/
structure Heard (k : Terms ι) (i : ι) (a : Action α) (x : α) (c d e : Course ι) : Prop where
  others : c.Waits i d
  before : k.inv d
  ends : Ends surroundings a d.state (.ok x) e.state
  own : d.Reads i e
  grows : k.grows c d
  grown : k.grows d e
  inv : k.inv e
  pending : k.pending i e

/-- The action asks nobody. -/
def IsSilent (a : Action α) : Prop := a.run.AsksAtMost 0

/-- The action asks at most one request, so that nobody can come between its parts. -/
def AsksOnce (a : Action α) : Prop := a.run.AsksAtMost 1

section Rules

variable {k : Terms ι} {i : ι} {c d e : Course ι} {Q : Except ServiceError β → Course ι → Prop}

theorem Heard.idles {a : Action α} {x : α} (h : Heard k i a x c d e) : c.Idles i e :=
  h.others.idles.trans (h.own.imp fun _ hread _ => hread.2)

theorem Heard.grows_trans {a : Action α} {x : α} (h : Heard k i a x c d e) : k.grows c e :=
  k.trans h.grows h.grown

/-- An action that comes to one exchange is one turn of the call. -/
theorem Heard.eq_after {a : Action α} {x : α} (h : Heard k i a x c d e) {q : Request} {reply : q.Reply}
    (hstate : e.state = d.state.after q reply) : e = d.after i q reply := by
  obtain ⟨more, hturns, hlog, hown⟩ := h.own
  have hlog' : e.state.log = d.state.log ++ [⟨q, reply⟩] := by
    rw [hstate]
    rfl
  rw [hlog', List.append_cancel_left_eq] at hlog
  obtain ⟨t, rfl, hexchange⟩ := List.map_eq_singleton_iff.1 hlog.symm
  have ht : t = ⟨i, ⟨q, reply⟩⟩ := by
    rw [← hexchange, ← (hown t (List.mem_singleton_self t)).1]
  cases e
  simp only at hstate hturns
  rw [hstate, hturns, ht]
  rfl

theorem Heard.mem_turns {a : Action α} {x : α} (h : Heard k i a x c d e) {q : Request} {reply : q.Reply}
    (hstate : e.state = d.state.after q reply) : ⟨i, ⟨q, reply⟩⟩ ∈ e.turns := by
  rw [h.eq_after hstate]
  exact List.mem_append_right _ (List.mem_singleton_self _)

/-- What only reads keeps the terms. -/
theorem Reads.quiet {a : Action α} (ha : Reads a) {r : Except ServiceError α}
    (h : Ends (among i) a c r d) (hI : k.inv c) :
    k.inv d ∧ k.grows c d ∧ c.Reads i d ∧ (k.pending i c → k.pending i d) := by
  have hkeeps := Program.Asks.keeps ha
    (I := fun d => k.inv d ∧ k.grows c d ∧ c.Reads i d ∧ (k.pending i c → k.pending i d)) ?_
    (ends_iff.1 h) ⟨hI, k.refl c, .refl _ c, id⟩
  · exact hkeeps
  · intro b q reply hq hreply ⟨hb, hgrows, hreads, hpending⟩
    obtain ⟨hb', hgrows', hpending'⟩ := k.quiet (i := i) hq hreply hb
    exact ⟨hb', k.trans hgrows hgrows', hreads.trans (.after _ q reply ⟨rfl, hq⟩),
      fun h => hpending' (hpending h)⟩

/-- **What only reads, and asks once, ends among others as it does alone.** -/
theorem Reads.withstands_bind {a : Action α} {f : α → Action β} (ha : Reads a)
    (honce : AsksOnce a) (hI : k.inv c) (hpending : k.pending i c)
    (herror : ∀ x d, k.pending i d → Q (.error x) d)
    (hf : ∀ x d e, Heard k i a x c d e → Withstands k i Q (f x) e) : Withstands k i Q (a >>= f) c := by
  refine Gatehouse.withstands_bind (Program.Withstands.of_asksAtMost_one honce hI hpending ?_)
  intro d hd hId r e hrun
  have hends : Ends (among i) a d r e := ends_iff.2 hrun
  have hruns := runs_among hrun
  obtain ⟨hIe, hgrows, hown, hkept⟩ := ha.quiet hends hId
  have hpending' : k.pending i e := hkept (k.stable hd.1 hpending)
  refine ⟨hIe, hgrows, ?_⟩
  cases r with
  | ok x => exact hf x d e ⟨hd.1, hId, ends_iff.2 hruns, hown, hd.2, hgrows, hIe, hpending'⟩
  | error x => exact herror x e hpending'

theorem withstands_ensure_bind {condition : Bool} {otherwise : ServiceError} {f : Unit → Action β}
    (herror : condition = false → Q (.error otherwise) c)
    (hf : condition = true → Withstands k i Q (f ()) c) :
    Withstands k i Q (ensure condition otherwise >>= f) c := by
  cases condition with
  | true => exact hf rfl
  | false => exact herror rfl

/-- A call to the store whose answer the caller looks at. -/
theorem withstands_attempt_bind {q : Call} {f : Except StoreError q.Answer → Action β}
    (hpending : k.pending i c)
    (hf : ∀ d, c.Waits i d → k.grows c d → k.inv d → ∀ reply, (Memory.perform q d.state.memory).1 = reply →
      k.inv (d.after i (.store q) reply) ∧ k.grows d (d.after i (.store q) reply) ∧
        Withstands k i Q (f reply) (d.after i (.store q) reply)) :
    Withstands k i Q (attempt q >>= f) c :=
  ⟨hpending, fun d hd hI reply hreply => hf d hd.1 hd.2 hI reply hreply.symm⟩

/-- A call to the store that has to succeed. -/
theorem withstands_call_bind {operation : String} {q : Call} {f : q.Answer → Action β}
    (hpending : k.pending i c)
    (hf : ∀ d, c.Waits i d → k.grows c d → k.inv d → ∀ reply, (Memory.perform q d.state.memory).1 = reply →
      k.inv (d.after i (.store q) reply) ∧ k.grows d (d.after i (.store q) reply) ∧
        match reply with
        | .ok x => Withstands k i Q (f x) (d.after i (.store q) reply)
        | .error x => Q (.error (.internal operation (.store x))) (d.after i (.store q) reply)) :
    Withstands k i Q (call operation q >>= f) c := by
  rw [call, bind_assoc]
  refine withstands_attempt_bind hpending fun d hd hgrows hI reply hreply => ?_
  obtain ⟨hI', hgrows', hmore⟩ := hf d hd hgrows hI reply hreply
  refine ⟨hI', hgrows', ?_⟩
  cases reply with
  | ok x => exact hmore
  | error x => exact hmore

/-- A call withstands the others if its operation does, which the gate may have denied. -/
theorem withstands_perform {svc : Service} {caller : Access.Caller} {o : Operation}
    {Q : Except ServiceError o.Result → Course ι → Prop} (herror : ∀ x, Q (.error x) c)
    (h : Withstands k i Q (o.action svc.refusal) c) : Withstands k i Q (svc.perform caller o) c := by
  by_cases hdenies : svc.Denies caller o.method
  · rw [perform_of_denies hdenies]
    exact herror _
  · rwa [perform_of_not_denies hdenies]

/-! ### Gathering -/

/-- From one course to another a call has written nothing, and the terms were kept. -/
structure Gathered (k : Terms ι) (i : ι) (c d : Course ι) : Prop where
  inv : k.inv d
  pending : k.pending i d
  idles : c.Idles i d
  grows : k.grows c d

theorem Gathered.trans (h : Gathered k i c d) (h' : Gathered k i d e) : Gathered k i c e :=
  ⟨h'.inv, h'.pending, h.idles.trans h'.idles, k.trans h.grows h'.grows⟩

theorem Heard.gathered {a : Action α} {x : α} (h : Heard k i a x c d e) : Gathered k i c e :=
  ⟨h.inv, h.pending, h.idles, h.grows_trans⟩

/-- The call goes through the action without writing.  Where the action succeeds, `P` is true of what it
returns and of the course. -/
def Gathers (k : Terms ι) (i : ι) (P : α → Course ι → Prop) (a : Action α) (c : Course ι) : Prop :=
  Withstands k i (fun r d => k.pending i d ∧ ∀ x, r = .ok x → Gathered k i c d ∧ P x d) a c

variable {P : α → Course ι → Prop} {R : β → Course ι → Prop}

/-- What gathers is gone through, and then comes what follows. -/
theorem Gathers.withstands_bind {a : Action α} {f : α → Action β} (ha : Gathers k i P a c)
    (herror : ∀ x d, k.pending i d → Q (.error x) d)
    (hf : ∀ x d, Gathered k i c d → P x d → Withstands k i Q (f x) d) :
    Withstands k i Q (a >>= f) c := by
  refine Gatehouse.withstands_bind (Program.Withstands.imp ha fun r d ⟨hpending, hd⟩ => ?_)
  cases r with
  | ok x =>
    obtain ⟨hgathered, hP⟩ := hd x rfl
    exact hf x d hgathered hP
  | error x => exact herror x d hpending

/-- What a call gathers after it had gathered something else adds to it. -/
theorem Gathers.of_later {a : Action α} (ha : Gathers k i P a d) (hcd : Gathered k i c d) :
    Withstands k i (fun r e => k.pending i e ∧ ∀ x, r = .ok x → Gathered k i c e ∧ P x e) a d :=
  Program.Withstands.imp ha fun _ _ ⟨hpending, he⟩ =>
    ⟨hpending, fun x hx => ⟨hcd.trans (he x hx).1, (he x hx).2⟩⟩

theorem Gathers.bind {a : Action α} {f : α → Action β} (ha : Gathers k i P a c)
    (hf : ∀ x d, Gathered k i c d → P x d → Gathers k i R (f x) d) : Gathers k i R (a >>= f) c := by
  refine ha.withstands_bind (fun x d hd => ⟨hd, fun _ h => nomatch h⟩) fun x d hgathered hP => ?_
  exact (hf x d hgathered hP).of_later hgathered

theorem gathers_pure {x : α} (hI : k.inv c) (hpending : k.pending i c) (hP : P x c) :
    Gathers k i P (pure x) c := by
  refine ⟨hpending, fun y hy => ?_⟩
  obtain rfl := Except.ok.inj hy
  exact ⟨⟨hI, hpending, .refl _ c, k.refl c⟩, hP⟩

theorem gathers_throw {x : ServiceError} (hpending : k.pending i c) :
    Gathers k i P (throw x : Action α) c := ⟨hpending, fun _ h => nomatch h⟩

theorem gathers_ensure_bind {condition : Bool} {otherwise : ServiceError} {f : Unit → Action α}
    (hpending : k.pending i c) (hf : condition = true → Gathers k i P (f ()) c) :
    Gathers k i P (ensure condition otherwise >>= f) c :=
  withstands_ensure_bind (fun _ => ⟨hpending, fun _ h => nomatch h⟩) hf

/-- A single request for something, and then what follows. -/
theorem Reads.gathers_bind {a : Action α} {f : α → Action β} (ha : Reads a) (honce : AsksOnce a)
    (hI : k.inv c) (hpending : k.pending i c)
    (hf : ∀ x d e, Heard k i a x c d e → Gathers k i R (f x) e) : Gathers k i R (a >>= f) c := by
  refine ha.withstands_bind honce hI hpending (fun x d hd => ⟨hd, fun _ h => nomatch h⟩) fun x d e he => ?_
  exact (hf x d e he).of_later he.gathered

/-- **Things are gathered one after the other** if what is true of each stays true while the call gathers
the others. -/
theorem Gathers.mapM {act : β → Action α} {bs : List β} (hI : k.inv c) (hpending : k.pending i c)
    (hstable : ∀ {x d e}, Gathered k i d e → P x d → P x e)
    (hact : ∀ b ∈ bs, ∀ d, k.inv d → k.pending i d → Gathers k i P (act b) d) :
    Gathers k i (fun xs d => ∀ x ∈ xs, P x d) (bs.mapM act) c := by
  induction bs generalizing c with
  | nil => exact gathers_pure hI hpending fun _ hx => absurd hx List.not_mem_nil
  | cons b bs ih =>
    rw [List.mapM_cons]
    refine (hact b List.mem_cons_self c hI hpending).bind fun x d hd hx => ?_
    have hlater := ih hd.inv hd.pending fun b hb => hact b (List.mem_cons_of_mem _ hb)
    refine hlater.bind fun xs e he hxs => gathers_pure he.inv he.pending ?_
    exact List.forall_mem_cons.2 ⟨hstable he hx, hxs⟩

section Pools

variable [DecidableEq ι] {svc : Service} {calls : ι → Invocation} {s : State} {pool pool' : Pool calls}
  {Q : (i : ι) → (calls i).Outcome → Course ι → Prop}

/-- **Terms that every call withstands hold at every moment.** -/
theorem Proceeds.withstands (hrun : Proceeds pool c pool' d)
    (hstable : ∀ i {r d e}, d.Waits i e → k.grows d e → k.inv e → Q i r d → Q i r e) (hI : k.inv c)
    (hpool : ∀ i, (pool i).Withstands (among i) (k.pact i) (Q i) c) :
    k.inv d ∧ k.grows c d ∧ ∀ i, (pool' i).Withstands (among i) (k.pact i) (Q i) d :=
  Interleaves.withstands (k := k.pact) (fun _ => rfl) k.refl k.trans (fun _ _ _ => id)
    (fun hne _ _ _ _ hgrows => ⟨.after _ _ _ hne.symm, hgrows⟩)
    (fun i _ _ _ hrely hI => hstable i hrely.1 hrely.2 hI) hrun hI hpool

theorem Concurrently.withstands (hrun : Concurrently svc calls s pool c)
    (hstable : ∀ i {r d e}, d.Waits i e → k.grows d e → k.inv e → Q i r d → Q i r e)
    (hI : k.inv (.start s))
    (hcalls : ∀ i, Withstands k i (Q i) (svc.perform (calls i).caller (calls i).operation) (.start s)) :
    k.inv c ∧ k.grows (.start s) c ∧ ∀ i, (pool i).Withstands (among i) (k.pact i) (Q i) c :=
  Proceeds.withstands hrun hstable hI hcalls

end Pools

end Rules

/-! ## Actions that ask once -/

theorem AsksOnce.bind {a : Action α} {f : α → Action β} (ha : AsksOnce a) (hf : ∀ x, IsSilent (f x)) :
    AsksOnce (a >>= f) := asksAtMost_bind ha hf

theorem IsSilent.bind {a : Action α} {f : α → Action β} (ha : IsSilent a) (hf : ∀ x, IsSilent (f x)) :
    IsSilent (a >>= f) := asksAtMost_bind ha hf

theorem IsSilent.bind_once {a : Action α} {f : α → Action β} (ha : IsSilent a) (hf : ∀ x, AsksOnce (f x)) :
    AsksOnce (a >>= f) := asksAtMost_bind ha hf

theorem isSilent_ensure (condition : Bool) (otherwise : ServiceError) :
    IsSilent (ensure condition otherwise) := by
  unfold ensure
  split <;> trivial

theorem isSilent_decoded (what : Item) (read : Json → Option α) (d : Document) :
    IsSilent (decoded what read d) := by
  unfold decoded
  split <;> trivial

theorem IsSilent.mapM {f : β → Action α} (h : ∀ b, IsSilent (f b)) (bs : List β) :
    IsSilent (bs.mapM f) := by
  induction bs with
  | nil => trivial
  | cons b bs ih =>
    rw [List.mapM_cons]
    exact (h b).bind fun _ => ih.bind fun _ => trivial

theorem asksOnce_request (q : Request) : AsksOnce (ExceptT.lift (Program.request (S := effects) q)) :=
  fun _ => trivial

theorem asksOnce_call (operation : String) (c : Call) : AsksOnce (call operation c) := by
  refine (asksOnce_request (.store c)).bind fun reply => ?_
  cases reply <;> trivial

theorem asksOnce_listOccurrences (operation : String) (q : Occurrence.ListRequest) :
    AsksOnce (listOccurrences operation q) := by
  refine (asksOnce_request (.listOccurrences q)).bind fun reply => ?_
  cases reply <;> trivial

theorem asksOnce_load (policyId rego : String) : AsksOnce (load policyId rego) := by
  refine (asksOnce_request (.load policyId rego)).bind fun reply => ?_
  cases reply <;> trivial

theorem asksOnce_evaluate (rego : String) (input : Json) : AsksOnce (evaluate rego input) := by
  refine (asksOnce_request (.evaluate rego input)).bind fun reply => ?_
  cases reply <;> trivial

theorem asksOnce_now : AsksOnce now := asksOnce_request .now

theorem asksOnce_freshId : AsksOnce freshId := asksOnce_request .freshId

/-- A time that was asked for was shown. -/
theorem mem_times_of_now {s t : State} {time : Instant} (h : Ends surroundings now s (.ok time) t) :
    time ∈ t.times := by
  obtain ⟨time', -, hends⟩ := ends_now_bind.1 (bind_pure now ▸ h)
  obtain ⟨htime, hstate⟩ := ends_pure.1 hends
  rw [hstate, Except.ok.inj htime]
  exact State.mem_times_now time'

/-- And an id that was asked for was given. -/
theorem mem_given_of_freshId {s t : State} {id : String} (h : Ends surroundings freshId s (.ok id) t) :
    id ∈ t.given := by
  obtain ⟨id', -, hends⟩ := ends_freshId_bind.1 (bind_pure freshId ▸ h)
  obtain ⟨hid, hstate⟩ := ends_pure.1 hends
  rw [hstate, Except.ok.inj hid]
  exact State.mem_given_freshId id'

theorem asksOnce_list {what : Item} {read : Json → Option α} {shelf : Shelf} {operation : String}
    {o : ListOptions} {clauses : List Query} {sort : SortBy} :
    AsksOnce (list what read shelf operation o clauses sort) := by
  have hfound : AsksOnce (listDocuments shelf operation o clauses sort) := by
    have hsearch : IsSilent (liftM (o.search clauses sort) : Action SearchRequest) := trivial
    refine hsearch.bind_once fun request => (asksOnce_request (.store (.search _ _))).bind fun reply => ?_
    cases reply <;> trivial
  exact hfound.bind fun _ => (IsSilent.mapM (isSilent_decoded _ _) _).bind fun _ => trivial

end Service

theorem Policy.asksOnce_find? (id : String) : AsksOnce (find? id) := by
  refine (asksOnce_call _ _).bind fun found => ?_
  cases found with
  | none => trivial
  | some d =>
    dsimp only
    split
    · exact (isSilent_decoded _ _ _).bind fun _ => trivial
    · trivial

theorem Policy.asksOnce_findVersion? (id : String) : AsksOnce (findVersion? id) := by
  refine (asksOnce_call _ _).bind fun found => ?_
  cases found with
  | none => trivial
  | some d =>
    dsimp only
    split
    · exact (isSilent_decoded _ _ _).bind fun _ => trivial
    · trivial

theorem Policy.asksOnce_require (id : String) : AsksOnce (require id) := by
  refine (asksOnce_find? id).bind fun found => ?_
  cases found <;> trivial

theorem Policy.asksOnce_nextVersion? (refusal : Rego.Refusal) (p : Policy) (v : PolicyVersion)
    (r : Revision) : AsksOnce (nextVersion? refusal p v r) := by
  unfold nextVersion?
  split
  · trivial
  · split
    · trivial
    · exact (isSilent_ensure _ _).bind_once fun _ => asksOnce_now.bind fun _ => trivial

theorem AssignmentScope.asksOnce_assignments (scope : AssignmentScope) : AsksOnce scope.assignments :=
  (asksOnce_call _ _).bind fun _ => IsSilent.mapM (isSilent_decoded _ _) _

theorem PolicyGroup.asksOnce_getActive (name : String) : AsksOnce (getActive name) := by
  have hget : AsksOnce (get name) := by
    refine (isSilent_ensure _ _).bind_once fun _ => (asksOnce_call _ _).bind fun found => ?_
    cases found with
    | none => trivial
    | some d => exact isSilent_decoded _ _ _
  exact hget.bind fun _ => (isSilent_ensure _ _).bind fun _ => trivial

theorem PolicyAssignment.asksOnce_get (id : String) : AsksOnce (get id) := by
  refine (isSilent_ensure _ _).bind_once fun _ => (asksOnce_call _ _).bind fun found => ?_
  cases found with
  | none => trivial
  | some d => exact isSilent_decoded _ _ _

theorem EvaluationRecord.asksOnce_get (id : String) : AsksOnce (get id) := by
  refine (isSilent_ensure _ _).bind_once fun _ => (asksOnce_call _ _).bind fun answers => ?_
  split
  · split
    · trivial
    · exact (isSilent_decoded _ _ _).bind fun _ =>
        (IsSilent.mapM (isSilent_decoded _ _) _).bind fun _ => trivial
  · trivial

end Gatehouse
