import Gatehouse.Proofs.Service.Lookup

/-!
# Whose fault an internal failure is

An internal failure names its cause.  Some causes lie outside of the service: the occurrence store or the
rule engine has failed, and the log says so.  Others would be faults of its own: a document that does not
read back, a write that the store refuses, a version that is not there.

1. **Explanations** (`State.Explains`).  What was answered from one state to another explains a failure
   if it is no internal one, or its cause is what one of the answers failed with.
2. **Actions without a fault** (`IsFaultless`): from a state on, every failure of the action is explained.
   The rules go by the structure of an action, from left to right.  What comes later may rely on what
   came before, so the rule of sequences (`IsFaultless.bind`) hands on the end of the first part.
-/

namespace Gatehouse.Service

open Store

/-! ## Explanations -/

/-- What the occurrence store or the rule engine failed with in an exchange, if it did. -/
def failure? (x : Exchange effects) : Option Cause :=
  match x with
  | ⟨.listOccurrences _, .error e⟩ => some (.occurrences e)
  | ⟨.load .., .error e⟩ => some (.engine e)
  | ⟨.evaluate .., .error e⟩ => some (.engine e)
  | _ => none

/-- What was asked and answered since a state. -/
def State.since (s t : State) : List (Exchange effects) := t.log.drop s.log.length

/-- A failure is no internal one, or its cause was answered from the one state to the other. -/
def State.Explains (s t : State) (e : ServiceError) : Prop :=
  ∀ operation cause, e = .internal operation cause → ∃ x ∈ s.since t, failure? x = some cause

section Explanations

variable {s m t : State} {e : ServiceError}

/-- Only the occurrence store and the rule engine are outside. -/
theorem failure?_eq_some {x : Exchange effects} {cause : Cause} (h : failure? x = some cause) :
    (∃ e, cause = .occurrences e) ∨ ∃ e, cause = .engine e := by
  unfold failure? at h
  split at h
  · exact .inl ⟨_, (Option.some.inj h).symm⟩
  · exact .inr ⟨_, (Option.some.inj h).symm⟩
  · exact .inr ⟨_, (Option.some.inj h).symm⟩
  · contradiction

theorem State.mem_since_after (s : State) (q : Request) (reply : q.Reply) :
    ⟨q, reply⟩ ∈ s.since (s.after q reply) := by
  simp [since]

/-- What explains a failure from a later state on explains it from an earlier one on. -/
theorem State.Explains.of_later (h : m.Explains t e) (hlog : s.log <+: m.log) : s.Explains t e := by
  intro operation cause he
  obtain ⟨x, hx, hcause⟩ := h operation cause he
  refine ⟨x, ?_, hcause⟩
  have hle : s.log.length ≤ m.log.length := hlog.length_le
  have hdrop : m.since t = (s.since t).drop (m.log.length - s.log.length) := by
    rw [since, since, List.drop_drop]
    congr 1
    omega
  rw [hdrop] at hx
  exact List.mem_of_mem_drop hx

/-- A failure that has no operation under way is none of the service's own. -/
theorem State.explains_of_operation? (h : e.operation? = none) : s.Explains t e := by
  rintro operation cause rfl
  contradiction

end Explanations

/-! ## Actions without a fault -/

/-- Every failure of the action from a state on is explained. -/
def IsFaultless {α : Type} (a : Action α) (s : State) : Prop :=
  ∀ ⦃e t⦄, Ends surroundings a s (.error e) t → s.Explains t e

section Faultless

variable {α β : Type} {s : State} {h : Holdings} {operation : String}

/-- **What follows is faultless where the first part has ended.** -/
theorem IsFaultless.bind {a : Action α} {f : α → Action β} (ha : IsFaultless a s)
    (hf : ∀ {x m}, Ends surroundings a s (.ok x) m → IsFaultless (f x) m) : IsFaultless (a >>= f) s := by
  intro e t he
  rcases ends_bind_error.1 he with he | ⟨x, m, hx, he⟩
  · exact ha he
  · exact (hf hx he).of_later hx.log_isPrefix

/-- If the first part only reads, what follows may rely on what is kept. -/
theorem IsFaultless.and_then {a : Action α} {f : α → Action β} (hs : s.Keeps h) (hread : Reads a)
    (ha : IsFaultless a s)
    (hf : ∀ {x m}, m.Keeps h → Ends surroundings a s (.ok x) m → IsFaultless (f x) m) :
    IsFaultless (a >>= f) s :=
  ha.bind fun he => hf (hread.keeps he hs) he

theorem isFaultless_of_ok {a : Action α} (h : ∀ r t, Ends surroundings a s r t → ∃ x, r = .ok x) :
    IsFaultless a s := by
  intro e t he
  obtain ⟨x, hx⟩ := h _ t he
  contradiction

theorem isFaultless_pure (a : α) : IsFaultless (pure a) s :=
  isFaultless_of_ok fun _ _ he => ⟨a, (ends_pure.1 he).1⟩

theorem isFaultless_liftM {x : Except ServiceError α} (hx : ∀ e, x = .error e → e.operation? = none) :
    IsFaultless (liftM x) s := by
  intro e t he
  exact State.explains_of_operation? (hx e (ends_liftM.1 he).1.symm)

theorem isFaultless_throw {e : ServiceError} (he : e.operation? = none) :
    IsFaultless (throw e : Action α) s := by
  intro e' t ht
  obtain rfl := Except.error.inj (ends_throw.1 ht).1
  exact State.explains_of_operation? he

/-- A check leads to what follows in the same state. -/
theorem isFaultless_ensure_bind {condition : Bool} {otherwise : ServiceError} {f : Unit → Action α}
    (he : otherwise.operation? = none) (hf : IsFaultless (f ()) s) :
    IsFaultless (ensure condition otherwise >>= f) s := by
  intro e t ht
  rcases ends_bind_error.1 ht with hfailed | ⟨x, m, hheld, hrest⟩
  · obtain ⟨-, rfl, -⟩ := ends_ensure_error.1 hfailed
    exact State.explains_of_operation? he
  · obtain ⟨-, rfl⟩ := ends_ensure_ok.1 hheld
    exact hf hrest

/-- A condition that holds cannot fail, whatever else would be thrown. -/
theorem isFaultless_ensure_of {condition : Bool} {otherwise : ServiceError} (hc : condition = true) :
    IsFaultless (ensure condition otherwise) s := by
  intro e t ht
  obtain ⟨hfalse, -⟩ := ends_ensure_error.1 ht
  rw [hc] at hfalse
  contradiction

/-! ### Requests -/

theorem isFaultless_request (q : Request) :
    IsFaultless (ExceptT.lift (Program.request (S := effects) q)) s := by
  refine isFaultless_of_ok fun r t he => ?_
  obtain ⟨reply, -, hr, -⟩ := (ends_request (S := effects)).1 he
  exact ⟨reply, hr⟩

theorem isFaultless_attempt (c : Call) : IsFaultless (attempt c) s := isFaultless_request (.store c)

theorem isFaultless_now_bind {f : Instant → Action α}
    (hf : ∀ time, IsFaultless (f time) (s.after .now time)) : IsFaultless (now >>= f) s := by
  intro e t he
  obtain ⟨time, -, he⟩ := ends_now_bind.1 he
  exact (hf time he).of_later (List.prefix_append _ _)

theorem isFaultless_freshId_bind {f : String → Action α}
    (hf : ∀ id, Text.IsUuid id ∧ id ∉ s.given → IsFaultless (f id) (s.after .freshId id)) :
    IsFaultless (freshId >>= f) s := by
  intro e t he
  obtain ⟨id, hid, he⟩ := ends_freshId_bind.1 he
  exact (hf id hid he).of_later (List.prefix_append _ _)

/-- A call that the store answers. -/
theorem isFaultless_call {c : Call} {x : c.Answer} (hx : (Memory.perform c s.memory).1 = .ok x) :
    IsFaultless (call operation c) s :=
  isFaultless_of_ok fun _ _ he => ⟨x, ((ends_call_of_ok hx).1 he).1⟩

/-- An action that begins with a call that the store answers. -/
theorem isFaultless_call_bind {c : Call} {f : c.Answer → Action α} {x : c.Answer}
    (hx : (Memory.perform c s.memory).1 = .ok x) (hf : IsFaultless (f x) (s.after (.store c) (.ok x))) :
    IsFaultless (call operation c >>= f) s := by
  refine (isFaultless_call hx).bind fun he => ?_
  obtain ⟨hr, rfl⟩ := (ends_call_of_ok hx).1 he
  obtain rfl := Except.ok.inj hr
  exact hf

/-- What a search for everything that a query selects finds. -/
def Holdings.found (h : Holdings) (shelf : Shelf) (q : Query) : SearchResponse :=
  ⟨(h.documents shelf).filter q.selects, ((h.documents shelf).filter q.selects).length, ""⟩

/-- Several searches for everything are answered, each by what it finds. -/
theorem State.Keeps.perform_searchAll (hs : s.Keeps h) (shelf : Shelf) (bs : List β) (query : β → Query) :
    (Memory.perform (.searchAll shelf.index (bs.map fun b => { query := query b })) s.memory).1 =
      .ok (bs.map fun b => h.found shelf (query b)) := by
  have hanswers := hs.holds.ordered.searchAll_unsorted shelf.index (bs.map query)
  rwa [List.map_map, List.map_map, hs.holds.documents] at hanswers

/-- An action that begins with several searches for everything: each of them has its answer. -/
theorem isFaultless_searchAll_bind {shelf : Shelf} (hs : s.Keeps h) (bs : List β) (query : β → Query)
    {f : List SearchResponse → Action α}
    (hf : ∀ {m : State}, m.Keeps h → IsFaultless (f (bs.map fun b => h.found shelf (query b))) m) :
    IsFaultless (call operation (.searchAll shelf.index (bs.map fun b => { query := query b })) >>= f)
      s := by
  have hanswers := hs.perform_searchAll shelf bs query
  exact isFaultless_call_bind hanswers (hf (hs.after (q := .store (.searchAll _ _)) hanswers.symm rfl))

/-- A change whose refusal the action looks at: it is made, or refused for the one reason. -/
theorem isFaultless_write {shelf : Shelf} {w : Write} {f : Except StoreError Unit → Action α}
    (hs : Holds s.memory h) (hok : ∀ m, IsFaultless (f (.ok ())) m)
    (hrefused : ∀ m, IsFaultless (f (.error (w.refusal shelf.index))) m) :
    IsFaultless (attempt (.write shelf.index w) >>= f) s := by
  refine (isFaultless_attempt _).bind fun hreply => ?_
  obtain ⟨hr, -⟩ := ends_attempt.1 hreply
  obtain rfl := Except.ok.inj hr
  rcases hs.reply_write shelf w with hreply | hreply
  · rw [hreply]
    exact hok _
  · rw [hreply]
    exact hrefused _

/-- An action that hands on the reply to one request: the reply itself explains the failure. -/
theorem isFaultless_relay {ε : Type} {a : Action α} {q : Request} (asReply : Except ε α → q.Reply)
    {cause : ε → Cause} (hcause : ∀ e, failure? ⟨q, asReply (.error e)⟩ = some (cause e))
    (ha : ∀ {r t}, Ends surroundings a s r t → ∃ reply : Except ε α,
      r = reply.mapError (fun e => .internal operation (cause e)) ∧ t = s.after q (asReply reply)) :
    IsFaultless a s := by
  intro e t he
  obtain ⟨reply, hr, rfl⟩ := ha he
  cases reply with
  | ok _ => contradiction
  | error failure =>
    rintro operation' cause' rfl
    obtain ⟨-, rfl⟩ := ServiceError.internal.inj (Except.error.inj hr)
    exact ⟨_, s.mem_since_after _ _, hcause failure⟩

/-- **If the occurrence store fails, this explains the failure.** -/
theorem isFaultless_listOccurrences (q : Occurrence.ListRequest) :
    IsFaultless (listOccurrences operation q) s :=
  isFaultless_relay (q := .listOccurrences q) id (fun _ => rfl) ends_listOccurrences.1

/-- And so do the failures of the rule engine. -/
theorem isFaultless_load (policyId rego : String) : IsFaultless (load policyId rego) s :=
  isFaultless_relay (q := .load policyId rego) id (fun _ => rfl) ends_load.1

theorem isFaultless_evaluate (rego : String) (input : Json) : IsFaultless (evaluate rego input) s :=
  isFaultless_relay (q := .evaluate rego input) id (fun _ => rfl) ends_evaluate.1

/-! ### Documents and lists -/

/-- A document that reads back is decoded. -/
theorem isFaultless_decoded {what : Item} {read : Json → Option α} {d : Document}
    (hd : ∃ a, read d.source = some a) : IsFaultless (decoded what read d) s := by
  obtain ⟨a, ha⟩ := hd
  rw [decoded_of ha]
  exact isFaultless_pure a

/-- Reading actions one after the other, of which each is faultless while the holdings are kept. -/
theorem IsFaultless.mapM {f : β → Action α} {bs : List β} (hs : s.Keeps h) (hread : ∀ b, Reads (f b))
    (hf : ∀ b ∈ bs, ∀ {m : State}, m.Keeps h → IsFaultless (f b) m) : IsFaultless (bs.mapM f) s := by
  induction bs generalizing s with
  | nil => exact isFaultless_pure []
  | cons b bs ih =>
    rw [List.mapM_cons]
    refine (hf b List.mem_cons_self hs).and_then hs (hread b) fun hm _ => ?_
    exact (ih hm fun b hb => hf b (List.mem_cons_of_mem _ hb)).bind fun _ => isFaultless_pure _

/-! ### Listings -/

section Listing

variable {shelf : Shelf} {o : ListOptions} {clauses : List Query} {sort : SortBy}

/-- The search of a listing asks for all of its clauses, or is refused for the caller's filter. -/
theorem search_of_options (o : ListOptions) (clauses : List Query) (sort : SortBy) :
    (∃ e, o.search clauses sort = .error (.malformedFilter e)) ∨
      ∃ r more, o.search clauses sort = .ok r ∧ r.query = Query.every (clauses ++ more) := by
  unfold ListOptions.search
  split
  · exact .inr ⟨_, [], rfl, rfl⟩
  · split
    · exact .inr ⟨_, _, rfl, rfl⟩
    · exact .inl ⟨_, rfl⟩

/-- A page token that was made up is the caller's fault, and so is a filter that does not parse. -/
theorem isFaultless_listDocuments : IsFaultless (listDocuments shelf operation o clauses sort) s := by
  have hsearch : ∀ e, o.search clauses sort = .error e → e.operation? = none := by
    intro e he
    rcases search_of_options o clauses sort with ⟨e', he'⟩ | ⟨r, _, hr, -⟩
    · rw [he'] at he
      rw [← Except.error.inj he]
      rfl
    · rw [hr] at he
      contradiction
  refine (isFaultless_liftM hsearch).bind fun _ => (isFaultless_attempt _).bind fun hreply => ?_
  obtain ⟨hr, -⟩ := ends_attempt.1 hreply
  obtain rfl := Except.ok.inj hr
  split
  · exact isFaultless_pure _
  · rename_i e he
    rw [Memory.search_error he]
    exact isFaultless_throw rfl

/-- The documents of a page are stored, and every clause selects them. -/
theorem mem_items_of_listDocuments (hs : s.Keeps h) {page : Page Document} {t : State}
    (he : Ends surroundings (listDocuments shelf operation o clauses sort) s (.ok page) t) :
    ∀ d ∈ page.items, d ∈ h.documents shelf ∧ ∀ q ∈ clauses, q.selects d = true := by
  obtain ⟨r, m, hlift, hsearch⟩ := ends_bind_ok.1 he
  obtain ⟨hr, rfl⟩ := ends_liftM.1 hlift
  have hanswer := ends_attempt_bind.1 hsearch
  split at hanswer
  · rename_i found hfound
    obtain ⟨hitems, -⟩ := ends_pure.1 hanswer
    obtain rfl := Except.ok.inj hitems
    intro d hd
    obtain ⟨hmem, hselects⟩ := hs.holds.ordered.mem_hits hfound hd
    rw [hs.holds.documents] at hmem
    refine ⟨hmem, fun q hq => ?_⟩
    rcases search_of_options o clauses sort with ⟨e, he⟩ | ⟨r', more, hr', hquery⟩
    · rw [he] at hr
      contradiction
    · rw [hr'] at hr
      obtain rfl := Except.ok.inj hr
      rw [hquery, Query.selects_every] at hselects
      exact List.all_eq_true.1 hselects q (List.mem_append_left _ hq)
  · exact absurd (ends_throw.1 hanswer).1 (by simp)

/-- **A listing is faultless if what its clauses select reads back.** -/
theorem isFaultless_list (hs : s.Keeps h) {what : Item} {read : Json → Option α}
    (hread : ∀ d ∈ h.documents shelf, (∀ q ∈ clauses, q.selects d = true) →
      ∃ a, read d.source = some a) :
    IsFaultless (Service.list what read shelf operation o clauses sort) s := by
  refine isFaultless_listDocuments.and_then hs (reads_listDocuments ..) fun hm he => ?_
  have hpage := mem_items_of_listDocuments hs he
  refine IsFaultless.bind ?_ fun _ => isFaultless_pure _
  refine IsFaultless.mapM hm (reads_decoded what read) fun d hd _ _ => isFaultless_decoded ?_
  obtain ⟨hmem, hselects⟩ := hpage d hd
  exact hread d hmem hselects

end Listing
end Faultless
end Gatehouse.Service
