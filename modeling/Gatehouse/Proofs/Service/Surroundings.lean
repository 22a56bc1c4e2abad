import Gatehouse.Proofs.Effect.Run
import Gatehouse.Proofs.Text.Uuid
import Gatehouse.Proofs.Time.Reading
import Gatehouse.Service.Basic

/-!
# The service and its surroundings

What the service does depends on what it is told.  Here is said what it may be told:

* the **store** keeps what it is given and answers accordingly;
* the **clock** shows an instant that has a written form, any one, also an earlier one;
* an **id** that is given is a UUID that was never given before;
* the **occurrence store** and the **rule engine** answer whatever they like, or fail, and need not
  answer the same thing twice.

A state is what the store holds, together with the log of everything that was asked and answered so
far.  The log says which ids were given, and it is what a guarantee about calls speaks of: which were
made, in which order, with which answers.

1. **Settings** (`surroundings`) in the sense of `Setting`, and the ends of a single request.
2. **Restraint.**  An action that only reads (`Reads`) leaves the store as it was, and the log has no
   write for it (`Untouched`).
-/

namespace Gatehouse

namespace Service

open Store

/-- The request may change the store. -/
def Request.isWrite : Request → Bool
  | .store c => c.isWrite
  | _ => false

/-- What the store holds, and what was asked and answered so far. -/
structure State where
  memory : Memory
  log : List (Exchange effects)

namespace State

/-- Nothing is stored and nothing was asked. -/
def initial : State := ⟨.empty, []⟩

/-- The ids that were given. -/
def given (s : State) : List String :=
  s.log.filterMap fun x =>
    match x with
    | ⟨.freshId, id⟩ => some id
    | _ => none

/-- The times that the clock showed. -/
def times (s : State) : List Instant :=
  s.log.filterMap fun x =>
    match x with
    | ⟨.now, time⟩ => some time
    | _ => none

/-- The reply may be given. -/
def allows (s : State) : (r : Request) → r.Reply → Prop
  | .store c, reply => reply = (Memory.perform c s.memory).1
  | .now, time => Instant.IsKept time
  | .freshId, id => Text.IsUuid id ∧ id ∉ s.given
  | .listOccurrences _, _ => True
  | .load .., _ => True
  | .evaluate .., _ => True

/-- The state after a request and its reply. -/
def after (s : State) (r : Request) (reply : r.Reply) : State where
  memory := match r with
    | .store c => (Memory.perform c s.memory).2
    | _ => s.memory
  log := s.log ++ [⟨r, reply⟩]

end State

/-- The surroundings of the service. -/
def surroundings : Setting effects State := ⟨State.allows, State.after⟩

/-! ## States -/

namespace State

variable {s t u : State}

@[simp] theorem after_log (r : Request) (reply : r.Reply) :
    (s.after r reply).log = s.log ++ [⟨r, reply⟩] := rfl

@[simp] theorem after_memory_now (time : Instant) : (s.after .now time).memory = s.memory := rfl

@[simp] theorem after_memory_freshId (id : String) : (s.after .freshId id).memory = s.memory := rfl

@[simp] theorem after_memory_store (c : Call) (reply : Request.Reply (.store c)) :
    (s.after (.store c) reply).memory = (Memory.perform c s.memory).2 := rfl

/-- A question to the occurrence store is only one more in the log. -/
theorem after_listOccurrences (q : Occurrence.ListRequest) (reply : Request.Reply (.listOccurrences q)) :
    s.after (.listOccurrences q) reply = ⟨s.memory, s.log ++ [⟨.listOccurrences q, reply⟩]⟩ := rfl

theorem after_memory_of_not_isWrite {r : Request} (h : r.isWrite = false) (reply : r.Reply) :
    (s.after r reply).memory = s.memory := by
  cases r with
  | store c => exact Memory.perform_snd_of_not_isWrite h s.memory
  | _ => rfl

/-- Only a fresh id is given. -/
@[simp] theorem given_after_of_ne {r : Request} (h : r ≠ .freshId) (reply : r.Reply) :
    (s.after r reply).given = s.given := by
  cases r with
  | freshId => contradiction
  | _ => simp [given]

@[simp] theorem given_after_freshId (id : String) : (s.after .freshId id).given = s.given ++ [id] := by
  simp [given]

/-- Only the clock shows times. -/
@[simp] theorem times_after_of_ne {r : Request} (h : r ≠ .now) (reply : r.Reply) :
    (s.after r reply).times = s.times := by
  cases r with
  | now => contradiction
  | _ => simp [times]

@[simp] theorem times_after_now (time : Instant) : (s.after .now time).times = s.times ++ [time] := by
  simp [times]

/-- Ids that were given stay given. -/
theorem given_subset (h : s.log <+: t.log) : s.given ⊆ t.given := by
  obtain ⟨more, h⟩ := h
  rw [given, given, ← h, List.filterMap_append]
  exact List.subset_append_left _ _

theorem times_subset (h : s.log <+: t.log) : s.times ⊆ t.times := by
  obtain ⟨more, h⟩ := h
  rw [times, times, ← h, List.filterMap_append]
  exact List.subset_append_left _ _

theorem mem_given_freshId (id : String) : id ∈ (s.after .freshId id).given := by
  simp [given]

theorem mem_times_now (time : Instant) : time ∈ (s.after .now time).times := by
  simp [times]

/-- From one state to the other nothing was written. -/
structure Untouched (s t : State) : Prop where
  memory : t.memory = s.memory
  log : ∃ exchanges, t.log = s.log ++ exchanges ∧ ∀ x ∈ exchanges, x.request.isWrite = false

namespace Untouched

theorem refl (s : State) : Untouched s s := ⟨rfl, [], by simp, by simp⟩

theorem trans (h : Untouched s t) (h' : Untouched t u) : Untouched s u := by
  obtain ⟨xs, hxs, hreads⟩ := h.log
  obtain ⟨ys, hys, hreads'⟩ := h'.log
  refine ⟨h'.memory.trans h.memory, xs ++ ys, by rw [hys, hxs, List.append_assoc], fun x hx => ?_⟩
  rcases List.mem_append.1 hx with hx | hx
  · exact hreads x hx
  · exact hreads' x hx

theorem after {r : Request} (h : r.isWrite = false) (reply : r.Reply) :
    Untouched s (s.after r reply) :=
  ⟨after_memory_of_not_isWrite h reply, [⟨r, reply⟩], rfl, by simpa using h⟩

end Untouched
end State

/-! ## The ends of requests -/

section Ends

variable {α : Type} {s t : State}

/-- An action that begins with a request goes on with some reply that may be given. -/
theorem ends_ask {q : Request} {f : q.Reply → Action α} {r : Except ServiceError α} :
    Ends surroundings (ExceptT.lift (Program.request (S := effects) q) >>= f) s r t ↔
      ∃ reply, s.allows q reply ∧ Ends surroundings (f reply) (s.after q reply) r t := by
  rw [ends_bind]
  simp only [ends_request (S := effects)]
  constructor
  · rintro (⟨_, _, ⟨reply, hr, hok, rfl⟩, h⟩ | ⟨_, ⟨_, _, hok, _⟩, _⟩)
    · obtain rfl := Except.ok.inj hok
      exact ⟨_, hr, h⟩
    · contradiction
  · rintro ⟨reply, hr, h⟩
    exact .inl ⟨reply, _, ⟨reply, hr, rfl, rfl⟩, h⟩

theorem ends_attempt {c : Call} {r : Except ServiceError (Except StoreError c.Answer)} :
    Ends surroundings (attempt c) s r t ↔
      r = .ok (Memory.perform c s.memory).1 ∧ t = s.after (.store c) (Memory.perform c s.memory).1 := by
  rw [attempt, ends_request (S := effects)]
  constructor
  · rintro ⟨_, rfl, rfl, rfl⟩
    exact ⟨rfl, rfl⟩
  · rintro ⟨rfl, rfl⟩
    exact ⟨_, rfl, rfl, rfl⟩

/-- A call fails if the store does. -/
theorem ends_call {operation : String} {c : Call} {r : Except ServiceError c.Answer} :
    Ends surroundings (call operation c) s r t ↔
      r = (Memory.perform c s.memory).1.mapError (fun e => .internal operation (.store e)) ∧
        t = s.after (.store c) (Memory.perform c s.memory).1 := by
  rw [call, attempt, ends_ask]
  constructor
  · rintro ⟨_, rfl, h⟩
    cases hreply : (Memory.perform c s.memory).1 with
    | ok answer => rw [hreply] at h; exact ends_pure.1 h
    | error e => rw [hreply] at h; exact ends_throw.1 h
  · rintro ⟨rfl, rfl⟩
    refine ⟨_, rfl, ?_⟩
    cases (Memory.perform c s.memory).1 with
    | ok answer => exact ends_pure.2 ⟨rfl, rfl⟩
    | error e => exact ends_throw.2 ⟨rfl, rfl⟩

/-- A call that the store answers. -/
theorem ends_call_of_ok {operation : String} {c : Call} {x : c.Answer} {r : Except ServiceError c.Answer}
    (hx : (Memory.perform c s.memory).1 = .ok x) :
    Ends surroundings (call operation c) s r t ↔ r = .ok x ∧ t = s.after (.store c) (.ok x) := by
  rw [ends_call, hx]
  exact Iff.rfl

theorem ends_listOccurrences {operation : String} {q : Occurrence.ListRequest}
    {r : Except ServiceError Occurrence.ListResponse} :
    Ends surroundings (listOccurrences operation q) s r t ↔
      ∃ reply : Except Occurrence.ListError Occurrence.ListResponse,
        r = reply.mapError (fun e => .internal operation (.occurrences e)) ∧
          t = s.after (.listOccurrences q) reply := by
  rw [listOccurrences, ends_ask]
  refine exists_congr fun reply => ?_
  cases reply with
  | ok page => exact ⟨fun h => ends_pure.1 h.2, fun h => ⟨trivial, ends_pure.2 h⟩⟩
  | error e => exact ⟨fun h => ends_throw.1 h.2, fun h => ⟨trivial, ends_throw.2 h⟩⟩

theorem ends_load {policyId rego : String} {r : Except ServiceError Unit} :
    Ends surroundings (load policyId rego) s r t ↔
      ∃ reply : Except RuleEngine.EngineError Unit,
        r = reply.mapError (fun e => .internal "error initializing policy in rule engine" (.engine e)) ∧
          t = s.after (.load policyId rego) reply := by
  rw [load, ends_ask]
  refine exists_congr fun reply => ?_
  cases reply with
  | ok _ => exact ⟨fun h => ends_pure.1 h.2, fun h => ⟨trivial, ends_pure.2 h⟩⟩
  | error e => exact ⟨fun h => ends_throw.1 h.2, fun h => ⟨trivial, ends_throw.2 h⟩⟩

theorem ends_evaluate {rego : String} {input : Json} {r : Except ServiceError RuleEngine.Evaluation} :
    Ends surroundings (evaluate rego input) s r t ↔
      ∃ reply : Except RuleEngine.EngineError RuleEngine.Evaluation,
        r = reply.mapError (fun e => .internal "error evaluating policy" (.engine e)) ∧
          t = s.after (.evaluate rego input) reply := by
  rw [evaluate, ends_ask]
  refine exists_congr fun reply => ?_
  cases reply with
  | ok evaluation => exact ⟨fun h => ends_pure.1 h.2, fun h => ⟨trivial, ends_pure.2 h⟩⟩
  | error e => exact ⟨fun h => ends_throw.1 h.2, fun h => ⟨trivial, ends_throw.2 h⟩⟩

@[simp] theorem ends_ensure_ok {condition : Bool} {otherwise : ServiceError} {x : Unit} :
    Ends surroundings (ensure condition otherwise) s (.ok x) t ↔ condition = true ∧ t = s := by
  unfold ensure
  split
  · rename_i h
    simp [h]
  · rename_i h
    simp [h]

@[simp] theorem ends_ensure_error {condition : Bool} {otherwise e : ServiceError} :
    Ends surroundings (ensure condition otherwise) s (.error e) t ↔
      condition = false ∧ e = otherwise ∧ t = s := by
  unfold ensure
  split
  · rename_i h
    simp [h]
  · rename_i h
    simp [h]

/-! ### At the front of an action -/

theorem ends_ensure_bind_ok {condition : Bool} {otherwise : ServiceError} {f : Unit → Action α} {a : α} :
    Ends surroundings (ensure condition otherwise >>= f) s (.ok a) t ↔
      condition = true ∧ Ends surroundings (f ()) s (.ok a) t := by
  rw [ends_bind_ok]
  constructor
  · rintro ⟨_, m, h, h'⟩
    obtain ⟨hc, rfl⟩ := ends_ensure_ok.1 h
    exact ⟨hc, h'⟩
  · rintro ⟨hc, h'⟩
    exact ⟨(), s, ends_ensure_ok.2 ⟨hc, rfl⟩, h'⟩

theorem ends_now_bind {f : Instant → Action α} {r : Except ServiceError α} :
    Ends surroundings (now >>= f) s r t ↔
      ∃ time : Instant, time.IsKept ∧ Ends surroundings (f time) (s.after .now time) r t :=
  ends_ask (q := .now)

theorem ends_freshId_bind {f : String → Action α} {r : Except ServiceError α} :
    Ends surroundings (freshId >>= f) s r t ↔
      ∃ id : String, (Text.IsUuid id ∧ id ∉ s.given) ∧
        Ends surroundings (f id) (s.after .freshId id) r t :=
  ends_ask (q := .freshId)

theorem ends_attempt_bind {c : Call} {f : Except StoreError c.Answer → Action α}
    {r : Except ServiceError α} :
    Ends surroundings (attempt c >>= f) s r t ↔
      Ends surroundings (f (Memory.perform c s.memory).1)
        (s.after (.store c) (Memory.perform c s.memory).1) r t := by
  rw [attempt, ends_ask]
  constructor
  · rintro ⟨_, rfl, h⟩
    exact h
  · intro h
    exact ⟨_, rfl, h⟩

/-- An action that begins with a call that the store answers. -/
theorem ends_call_bind_of_ok {operation : String} {c : Call} {f : c.Answer → Action α} {x : c.Answer}
    {r : Except ServiceError α} (hx : (Memory.perform c s.memory).1 = .ok x) :
    Ends surroundings (call operation c >>= f) s r t ↔
      Ends surroundings (f x) (s.after (.store c) (.ok x)) r t := by
  rw [ends_bind]
  constructor
  · rintro (⟨y, m, h, h'⟩ | ⟨e, h, -⟩)
    · obtain ⟨hr, rfl⟩ := (ends_call_of_ok hx).1 h
      obtain rfl := Except.ok.inj hr
      exact h'
    · have hr := ((ends_call_of_ok hx).1 h).1
      contradiction
  · intro h'
    exact .inl ⟨x, _, (ends_call_of_ok hx).2 ⟨rfl, rfl⟩, h'⟩

theorem ends_call_bind_ok {operation : String} {c : Call} {f : c.Answer → Action α} {a : α} :
    Ends surroundings (call operation c >>= f) s (.ok a) t ↔
      ∃ x, (Memory.perform c s.memory).1 = .ok x ∧
        Ends surroundings (f x) (s.after (.store c) (.ok x)) (.ok a) t := by
  rw [ends_bind_ok]
  constructor
  · rintro ⟨x, m, h, h'⟩
    obtain ⟨hr, rfl⟩ := ends_call.1 h
    cases hperform : (Memory.perform c s.memory).1 with
    | ok y =>
      rw [hperform] at hr h'
      obtain rfl := Except.ok.inj hr
      exact ⟨_, rfl, h'⟩
    | error e =>
      rw [hperform] at hr
      contradiction
  · rintro ⟨x, hperform, h'⟩
    refine ⟨x, _, ends_call.2 ⟨?_, rfl⟩, ?_⟩
    · rw [hperform]
      rfl
    · rw [hperform]
      exact h'

/-- A list of occurrences that is asked for comes, or it does not and that is the end. -/
theorem ends_listOccurrences_bind {operation : String} {q : Occurrence.ListRequest}
    {f : Occurrence.ListResponse → Action α} {r : Except ServiceError α} :
    Ends surroundings (listOccurrences operation q >>= f) s r t ↔
      (∃ page, Ends surroundings (f page) (s.after (.listOccurrences q) (.ok page)) r t) ∨
        ∃ e, r = .error (.internal operation (.occurrences e)) ∧ t = s.after (.listOccurrences q) (.error e) := by
  rw [ends_bind]
  simp only [ends_listOccurrences]
  constructor
  · rintro (⟨page, m, ⟨reply, hreply, rfl⟩, h⟩ | ⟨x, ⟨reply, hreply, rfl⟩, rfl⟩)
    · cases reply with
      | error e => contradiction
      | ok page' =>
        obtain rfl := Except.ok.inj hreply
        exact .inl ⟨page, h⟩
    · cases reply with
      | ok page => contradiction
      | error e => exact .inr ⟨e, congrArg Except.error (Except.error.inj hreply), rfl⟩
  · rintro (⟨page, h⟩ | ⟨e, rfl, rfl⟩)
    · exact .inl ⟨page, _, ⟨.ok page, rfl, rfl⟩, h⟩
    · exact .inr ⟨_, ⟨.error e, rfl, rfl⟩, rfl⟩

theorem ends_listOccurrences_bind_ok {operation : String} {q : Occurrence.ListRequest}
    {f : Occurrence.ListResponse → Action α} {a : α} :
    Ends surroundings (listOccurrences operation q >>= f) s (.ok a) t ↔
      ∃ page, Ends surroundings (f page) (s.after (.listOccurrences q) (.ok page)) (.ok a) t := by
  rw [ends_listOccurrences_bind, or_iff_left]
  rintro ⟨e, herror, -⟩
  contradiction

theorem ends_load_bind_ok {policyId rego : String} {f : Unit → Action α} {a : α} :
    Ends surroundings (load policyId rego >>= f) s (.ok a) t ↔
      Ends surroundings (f ()) (s.after (.load policyId rego) (.ok ())) (.ok a) t := by
  rw [ends_bind_ok]
  constructor
  · rintro ⟨_, m, h, h'⟩
    obtain ⟨reply, hr, rfl⟩ := ends_load.1 h
    cases reply with
    | ok _ => exact h'
    | error e => contradiction
  · intro h'
    exact ⟨(), _, ends_load.2 ⟨.ok (), rfl, rfl⟩, h'⟩

end Ends

/-! ## Honest surroundings -/

/-- So far ids were UUIDs, and times had a written form. -/
structure State.IsHonest (s : State) : Prop where
  uuid : ∀ id ∈ s.given, Text.IsUuid id
  kept : ∀ time ∈ s.times, Instant.IsKept time

theorem State.IsHonest.after {s : State} (hs : s.IsHonest) {q : Request} {reply : q.Reply}
    (hq : s.allows q reply) : (s.after q reply).IsHonest := by
  cases q with
  | now =>
    refine ⟨by simpa [State.given] using hs.uuid, fun time htime => ?_⟩
    have hor : time ∈ s.times ∨ time = reply := by simpa [State.times] using htime
    rcases hor with h | rfl
    · exact hs.kept time h
    · exact hq
  | freshId =>
    refine ⟨fun id hid => ?_, by simpa [State.times] using hs.kept⟩
    have hor : id ∈ s.given ∨ id = reply := by simpa [State.given] using hid
    rcases hor with h | rfl
    · exact hs.uuid id h
    · exact hq.1
  | _ => exact ⟨by simpa [State.given] using hs.uuid, by simpa [State.times] using hs.kept⟩

end Service

open Service in
/-- Whatever the service does, what it was told stays honest. -/
theorem Ends.honest {α : Type} {a : Action α} {s t : State} {r : Except ServiceError α}
    (h : Ends surroundings a s r t) (hs : s.IsHonest) : t.IsHonest := by
  have hasks : Program.Asks (S := effects) (fun _ => True) a.run := Program.asks_true _
  exact hasks.keeps (fun u q reply _ hq hu => hu.after hq) (ends_iff.1 h) hs

open Service in
/-- The log only grows. -/
theorem Program.Runs.log_isPrefix {α : Type} {p : Program effects α} {s t : State} {a : α}
    (h : p.Runs surroundings s a t) : s.log <+: t.log :=
  (Program.asks_true p).keeps (I := fun u => s.log <+: u.log)
    (fun _ _ _ _ _ hu => hu.trans (List.prefix_append _ _)) h (List.prefix_refl _)

open Service in
theorem Ends.log_isPrefix {α : Type} {a : Action α} {s t : State} {r : Except ServiceError α}
    (h : Ends surroundings a s r t) : s.log <+: t.log := (ends_iff.1 h).log_isPrefix

end Gatehouse
