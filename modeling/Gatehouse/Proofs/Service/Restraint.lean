import Gatehouse.Proofs.Service.Surroundings

/-!
# What actions leave alone

Properties of actions that can be read off their text, whatever the surroundings answer.  The first three
say of which kind every request is (`Only`).

* **Reading** (`Reads`).  The action asks for no write.  So the store is afterwards what it was, and so
  are all later answers (`Reads.untouched`).
* **Keeping inside** (`IsInward`).  The action asks neither the occurrence store nor the rule engine.
* **Looking up** (`LooksUp`) is both: the store is read, or the clock, or an id is asked for.
* **All or nothing** (`IsAtomic`).  If the action fails, the store is what it was.  An action that
  reads, then makes one write, and cannot fail after it, is atomic (`IsAtomic.bind`,
  `isAtomic_call_then`); a store that refuses a write does nothing.

All go by the structure of the actions, with one lemma for each action of the service.  Only the
deletion of a policy makes two writes, and is not all or nothing.
-/

namespace Gatehouse.Service

open Store

variable {α β : Type}

/-! ## Requests of a kind -/

/-- Every request of the action is of a kind. -/
def Only (P : Request → Prop) (a : Action α) : Prop := Program.Asks (S := effects) P a.run

section Only

variable {P Q : Request → Prop}

@[simp] theorem only_pure (a : α) : Only P (pure a) := trivial

@[simp] theorem only_throw (e : ServiceError) : Only P (throw e : Action α) := trivial

@[simp] theorem only_liftM (x : Except ServiceError α) : Only P (liftM x) := trivial

theorem Only.bind {a : Action α} {f : α → Action β} (ha : Only P a) (hf : ∀ x, Only P (f x)) :
    Only P (a >>= f) := asks_bind ha hf

theorem Only.mono {a : Action α} (h : Only P a) (hPQ : ∀ r, P r → Q r) : Only Q a :=
  Program.Asks.mono h hPQ

theorem only_request {q : Request} (h : P q) :
    Only P (ExceptT.lift (Program.request (S := effects) q)) := ⟨h, fun _ => trivial⟩

theorem only_attempt {c : Call} (h : P (.store c)) : Only P (attempt c) :=
  only_request (q := .store c) h

theorem only_call {operation : String} {c : Call} (h : P (.store c)) : Only P (call operation c) := by
  refine (only_attempt h).bind fun reply => ?_
  cases reply <;> trivial

@[simp] theorem only_ensure (condition : Bool) (otherwise : ServiceError) :
    Only P (ensure condition otherwise) := by
  unfold ensure
  split <;> trivial

@[simp] theorem only_decoded (what : Item) (read : Json → Option α) (d : Document) :
    Only P (decoded what read d) := by
  unfold decoded
  split <;> trivial

theorem only_listOccurrences {operation : String} {q : Occurrence.ListRequest} (h : P (.listOccurrences q)) :
    Only P (listOccurrences operation q) := by
  refine (only_request (q := .listOccurrences q) h).bind fun reply => ?_
  cases reply <;> trivial

theorem only_load {policyId rego : String} (h : P (.load policyId rego)) : Only P (load policyId rego) := by
  refine (only_request (q := .load policyId rego) h).bind fun reply => ?_
  cases reply <;> trivial

theorem only_evaluate {rego : String} {input : Json} (h : P (.evaluate rego input)) :
    Only P (evaluate rego input) := by
  refine (only_request (q := .evaluate rego input) h).bind fun reply => ?_
  cases reply <;> trivial

theorem Only.mapM {f : β → Action α} (h : ∀ b, Only P (f b)) (bs : List β) : Only P (bs.mapM f) := by
  induction bs with
  | nil => trivial
  | cons b bs ih =>
    rw [List.mapM_cons]
    exact (h b).bind fun _ => ih.bind fun _ => only_pure _

/-- What is asked and answered on the way is of the kind. -/
theorem Only.log_eq {a : Action α} (h : Only P a) {s t : State} {r : Except ServiceError α}
    (he : Ends surroundings a s r t) :
    ∃ xs, t.log = s.log ++ xs ∧ ∀ x ∈ xs, P x.request := by
  refine Program.Asks.keeps h (I := fun u => ∃ xs, u.log = s.log ++ xs ∧ ∀ x ∈ xs, P x.request) ?_
    (ends_iff.1 he) ⟨[], by simp, by simp⟩
  rintro u q reply hq - ⟨xs, hlog, hxs⟩
  have hlater : (surroundings.after u q reply).log = u.log ++ [⟨q, reply⟩] := rfl
  refine ⟨xs ++ [⟨q, reply⟩], by rw [hlater, hlog, List.append_assoc], fun x hx => ?_⟩
  rcases List.mem_append.1 hx with hx | hx
  · exact hxs x hx
  · obtain rfl := List.mem_singleton.1 hx
    exact hq

end Only

/-! ## Reading -/

/-- The action asks for no write. -/
def Reads (a : Action α) : Prop := Program.Asks (S := effects) (fun r => r.isWrite = false) a.run

/-- **An action that only reads leaves everything as it was.** -/
theorem Reads.untouched {a : Action α} (h : Reads a) {s t : State} {r : Except ServiceError α}
    (he : Ends surroundings a s r t) : s.Untouched t := by
  refine Program.Asks.keeps h (I := fun u => s.Untouched u) ?_ (ends_iff.1 he) (State.Untouched.refl s)
  intro u q reply hq _ hu
  exact hu.trans (State.Untouched.after hq reply)

@[simp] theorem reads_pure (a : α) : Reads (pure a) := trivial

@[simp] theorem reads_liftM (x : Except ServiceError α) : Reads (liftM x) := trivial

theorem Reads.bind {a : Action α} {f : α → Action β} (ha : Reads a) (hf : ∀ x, Reads (f x)) :
    Reads (a >>= f) := Only.bind ha hf

theorem reads_call {operation : String} {c : Call} (h : c.isWrite = false) :
    Reads (call operation c) := only_call h

@[simp] theorem reads_now : Reads now := only_request (q := .now) rfl

@[simp] theorem reads_freshId : Reads freshId := only_request (q := .freshId) rfl

theorem reads_listOccurrences (operation : String) (q : Occurrence.ListRequest) :
    Reads (listOccurrences operation q) := only_listOccurrences rfl

theorem reads_load (policyId rego : String) : Reads (load policyId rego) := only_load rfl

theorem reads_evaluate (rego : String) (input : Json) : Reads (evaluate rego input) := only_evaluate rfl

@[simp] theorem reads_ensure (condition : Bool) (otherwise : ServiceError) :
    Reads (ensure condition otherwise) := only_ensure condition otherwise

@[simp] theorem reads_decoded (what : Item) (read : Json → Option α) (d : Document) :
    Reads (decoded what read d) := only_decoded what read d

theorem Reads.mapM {f : β → Action α} (h : ∀ b, Reads (f b)) (bs : List β) : Reads (bs.mapM f) :=
  Only.mapM h bs

/-! ## Keeping inside -/

/-- The request goes to the occurrence store or to the rule engine. -/
def Request.isOutward : Request → Bool
  | .listOccurrences _ | .load .. | .evaluate .. => true
  | _ => false

/-- The action asks nobody outside. -/
def IsInward (a : Action α) : Prop := Only (fun r => r.isOutward = false) a

theorem IsInward.bind {a : Action α} {f : α → Action β} (ha : IsInward a) (hf : ∀ x, IsInward (f x)) :
    IsInward (a >>= f) := Only.bind ha hf

theorem isInward_attempt (c : Call) : IsInward (attempt c) := only_attempt rfl

theorem isInward_call (operation : String) (c : Call) : IsInward (call operation c) := only_call rfl

theorem isInward_now : IsInward now := only_request (q := .now) rfl

theorem isInward_freshId : IsInward freshId := only_request (q := .freshId) rfl

/-! ## Looking up -/

/-- The request reads the store, or the clock, or asks for an id. -/
def Request.isLookup : Request → Bool
  | .store c => !c.isWrite
  | .now | .freshId => true
  | _ => false

/-- The action looks things up and does nothing else. -/
def LooksUp (a : Action α) : Prop := Only (fun r => r.isLookup = true) a

theorem Request.isWrite_of_isLookup {r : Request} (h : r.isLookup = true) : r.isWrite = false := by
  cases r with
  | store c => simpa [isLookup, isWrite] using h
  | _ => rfl

/-- What looks things up only reads. -/
theorem LooksUp.reads {a : Action α} (h : LooksUp a) : Reads a :=
  Only.mono h fun _ => Request.isWrite_of_isLookup

/-- And it keeps inside. -/
theorem LooksUp.isInward {a : Action α} (h : LooksUp a) : IsInward a := by
  refine Only.mono h fun r hr => ?_
  cases r <;> trivial

theorem LooksUp.bind {a : Action α} {f : α → Action β} (ha : LooksUp a) (hf : ∀ x, LooksUp (f x)) :
    LooksUp (a >>= f) := Only.bind ha hf

theorem looksUp_attempt {c : Call} (h : c.isWrite = false) : LooksUp (attempt c) :=
  only_attempt (by simp [Request.isLookup, h])

theorem looksUp_call {operation : String} {c : Call} (h : c.isWrite = false) :
    LooksUp (call operation c) := only_call (by simp [Request.isLookup, h])

@[simp] theorem looksUp_now : LooksUp now := only_request (q := .now) rfl

@[simp] theorem looksUp_freshId : LooksUp freshId := only_request (q := .freshId) rfl

@[simp] theorem looksUp_ensure (condition : Bool) (otherwise : ServiceError) :
    LooksUp (ensure condition otherwise) := only_ensure condition otherwise

@[simp] theorem looksUp_decoded (what : Item) (read : Json → Option α) (d : Document) :
    LooksUp (decoded what read d) := only_decoded what read d

/-! ## All or nothing -/

/-- If the action fails, the store is what it was. -/
def IsAtomic (a : Action α) : Prop :=
  ∀ ⦃s t : State⦄ ⦃e : ServiceError⦄, Ends surroundings a s (.error e) t → t.memory = s.memory

theorem Reads.isAtomic {a : Action α} (h : Reads a) : IsAtomic a := fun _ _ _ he =>
  (h.untouched he).memory

/-- An action that begins by reading fails there, with nothing changed, or goes on. -/
theorem Reads.failed_or {a : Action α} {f : α → Action β} (ha : Reads a) {s t : State}
    {r : Except ServiceError β} (he : Ends surroundings (a >>= f) s r t) :
    (∃ e, r = .error e ∧ t.memory = s.memory) ∨
      ∃ x m, Ends surroundings a s (.ok x) m ∧ Ends surroundings (f x) m r t := by
  rcases ends_bind.1 he with ⟨x, m, hx, he⟩ | ⟨e, herror, rfl⟩
  · exact .inr ⟨x, m, hx, he⟩
  · exact .inl ⟨e, rfl, (ha.untouched herror).memory⟩

theorem IsAtomic.bind {a : Action α} {f : α → Action β} (ha : Reads a) (hf : ∀ x, IsAtomic (f x)) :
    IsAtomic (a >>= f) := by
  intro s t e he
  rcases ends_bind_error.1 he with he | ⟨x, m, hx, he⟩
  · exact (ha.untouched he).memory
  · exact (hf x he).trans (ha.untouched hx).memory

/-- A call that fails changed nothing. -/
theorem perform_snd_of_error {c : Call} {m : Memory} {e : StoreError}
    (h : (Memory.perform c m).1 = .error e) : (Memory.perform c m).2 = m := by
  cases c with
  | write index w =>
    cases hw : m.write index w with
    | ok later => simp [Memory.perform, Memory.commit, hw] at h
    | error e => simp [Memory.perform, Memory.commit, hw]
  | bulk index ws =>
    cases hw : m.bulk index ws with
    | ok later => simp [Memory.perform, Memory.commit, hw] at h
    | error e => simp [Memory.perform, Memory.commit, hw]
  | _ => rfl

/-- A call, and then nothing that can fail. -/
theorem isAtomic_call_then {operation : String} {c : Call} {f : c.Answer → Action α}
    (hf : ∀ x, ∃ a, f x = pure a) : IsAtomic (call operation c >>= f) := by
  intro s t e he
  rcases ends_bind_error.1 he with he | ⟨x, m, -, he⟩
  · obtain ⟨herror, rfl⟩ := ends_call.1 he
    cases hreply : (Memory.perform c s.memory).1 with
    | ok answer => rw [hreply] at herror; contradiction
    | error e => exact perform_snd_of_error hreply
  · obtain ⟨a, ha⟩ := hf x
    rw [ha] at he
    exact absurd (ends_pure.1 he).1 (by simp)

/-- A call whose failure the caller looks at, and then nothing that can fail if it succeeded. -/
theorem isAtomic_attempt_then {c : Call} {f : Except StoreError c.Answer → Action α}
    (hok : ∀ x, ∃ a, f (.ok x) = pure a) (herror : ∀ e, Reads (f (.error e))) :
    IsAtomic (attempt c >>= f) := by
  intro s t e he
  rcases ends_bind_error.1 he with he | ⟨reply, m, hreply, he⟩
  · exact absurd (ends_attempt.1 he).1 (by simp)
  · obtain ⟨hr, rfl⟩ := ends_attempt.1 hreply
    obtain rfl := Except.ok.inj hr
    cases hperform : (Memory.perform c s.memory).1 with
    | ok answer =>
      rw [hperform] at he
      obtain ⟨a, ha⟩ := hok answer
      rw [ha] at he
      exact absurd (ends_pure.1 he).1 (by simp)
    | error error =>
      rw [hperform] at he
      exact ((herror error).untouched he).memory.trans (perform_snd_of_error hperform)

end Gatehouse.Service

/-! ## The actions of the service -/

namespace Gatehouse

open Service Store

theorem Service.looksUp_listDocuments (shelf : Shelf) (operation : String) (o : ListOptions)
    (clauses : List Query) (sort : SortBy) : LooksUp (listDocuments shelf operation o clauses sort) :=
  (only_liftM _).bind fun request => (looksUp_attempt rfl).bind fun reply => by
    cases reply <;> trivial

theorem Service.reads_listDocuments (shelf : Shelf) (operation : String) (o : ListOptions)
    (clauses : List Query) (sort : SortBy) : Reads (listDocuments shelf operation o clauses sort) :=
  (Service.looksUp_listDocuments ..).reads

theorem Service.looksUp_list {α : Type} (what : Item) (read : Json → Option α) (shelf : Shelf)
    (operation : String) (o : ListOptions) (clauses : List Query) (sort : SortBy) :
    LooksUp (Service.list what read shelf operation o clauses sort) :=
  (Service.looksUp_listDocuments ..).bind fun page =>
    (Only.mapM (looksUp_decoded what read) page.items).bind fun _ => only_pure _

theorem Service.reads_list {α : Type} (what : Item) (read : Json → Option α) (shelf : Shelf)
    (operation : String) (o : ListOptions) (clauses : List Query) (sort : SortBy) :
    Reads (Service.list what read shelf operation o clauses sort) := (Service.looksUp_list ..).reads

theorem AssignmentScope.looksUp_assignments (scope : AssignmentScope) : LooksUp scope.assignments :=
  (looksUp_call rfl).bind fun _ => Only.mapM (looksUp_decoded _ _) _

theorem AssignmentScope.reads_assignments (scope : AssignmentScope) : Reads scope.assignments :=
  (AssignmentScope.looksUp_assignments ..).reads

namespace Policy

theorem looksUp_find? (id : String) : LooksUp (find? id) := by
  refine (looksUp_call rfl).bind fun found => ?_
  cases found with
  | none => trivial
  | some d =>
    dsimp only
    split
    · exact (looksUp_decoded _ _ _).bind fun _ => only_pure _
    · trivial

theorem looksUp_findVersion? (id : String) : LooksUp (findVersion? id) := by
  refine (looksUp_call rfl).bind fun found => ?_
  cases found with
  | none => trivial
  | some d =>
    dsimp only
    split
    · exact (looksUp_decoded _ _ _).bind fun _ => only_pure _
    · trivial

theorem reads_findVersion? (id : String) : Reads (findVersion? id) :=
  (looksUp_findVersion? ..).reads

theorem looksUp_require (id : String) : LooksUp (require id) := by
  refine (looksUp_find? id).bind fun found => ?_
  cases found <;> trivial

theorem reads_require (id : String) : Reads (require id) := (looksUp_require ..).reads

theorem looksUp_getWithVersion (id : String) : LooksUp (getWithVersion id) := by
  refine (looksUp_ensure _ _).bind fun _ => (looksUp_require _).bind fun policy =>
    (looksUp_findVersion? _).bind fun found => ?_
  cases found with
  | some v => trivial
  | none =>
    dsimp only
    split <;> trivial

theorem reads_getWithVersion (id : String) : Reads (getWithVersion id) :=
  (looksUp_getWithVersion ..).reads

theorem looksUp_get (id : String) : LooksUp (get id) :=
  (looksUp_getWithVersion id).bind fun _ => only_pure _

theorem reads_get (id : String) : Reads (get id) := (looksUp_get ..).reads

theorem looksUp_list (o : ListOptions) : LooksUp (list o) := Service.looksUp_list ..

theorem reads_list (o : ListOptions) : Reads (list o) := (looksUp_list ..).reads

theorem looksUp_listVersions (id : String) (o : ListOptions) : LooksUp (listVersions id o) :=
  (looksUp_require id).bind fun _ => Service.looksUp_list ..

theorem reads_listVersions (id : String) (o : ListOptions) : Reads (listVersions id o) :=
  (looksUp_listVersions ..).reads

theorem looksUp_ensureValid (refusal : Rego.Refusal) (source : String) :
    LooksUp (ensureValid refusal source) := looksUp_ensure _ _

theorem reads_ensureValid (refusal : Rego.Refusal) (source : String) :
    Reads (ensureValid refusal source) := (looksUp_ensureValid ..).reads

theorem looksUp_validate (refusal : Rego.Refusal) (source : String) : LooksUp (validate refusal source) :=
  (looksUp_ensure _ _).bind fun _ => only_pure _

theorem reads_validate (refusal : Rego.Refusal) (source : String) : Reads (validate refusal source) :=
  (looksUp_validate ..).reads

theorem looksUp_nextVersion? (refusal : Rego.Refusal) (p : Policy) (v : PolicyVersion) (r : Revision) :
    LooksUp (nextVersion? refusal p v r) := by
  unfold nextVersion?
  split
  · trivial
  · split
    · trivial
    · exact (looksUp_ensureValid _ _).bind fun _ => looksUp_now.bind fun _ => only_pure _

theorem reads_nextVersion? (refusal : Rego.Refusal) (p : Policy) (v : PolicyVersion) (r : Revision) :
    Reads (nextVersion? refusal p v r) := (looksUp_nextVersion? ..).reads

theorem isAtomic_create (refusal : Rego.Refusal) (draft : Draft) : IsAtomic (create refusal draft) :=
  IsAtomic.bind (reads_ensure _ _) fun _ => IsAtomic.bind (reads_ensure _ _) fun _ =>
  IsAtomic.bind (reads_ensureValid _ _) fun _ => IsAtomic.bind reads_freshId fun _ =>
  IsAtomic.bind reads_now fun _ => isAtomic_call_then fun _ => ⟨_, rfl⟩

theorem isAtomic_update (refusal : Rego.Refusal) (id : String) (revision : Revision) :
    IsAtomic (update refusal id revision) := by
  refine IsAtomic.bind (reads_require id) fun policy => IsAtomic.bind (reads_ensure _ _) fun _ =>
    IsAtomic.bind (reads_findVersion? _) fun found => ?_
  -- both ways go on in the same manner, the one without a version only in appearance
  cases found <;>
    exact IsAtomic.bind (by trivial) fun _ => IsAtomic.bind (reads_ensure _ _) fun _ =>
      IsAtomic.bind (reads_nextVersion? ..) fun _ => IsAtomic.bind reads_now fun _ =>
      isAtomic_call_then fun _ => ⟨_, rfl⟩

theorem isInward_create (refusal : Rego.Refusal) (draft : Draft) : IsInward (create refusal draft) :=
  IsInward.bind (only_ensure _ _) fun _ => IsInward.bind (only_ensure _ _) fun _ =>
  (looksUp_ensureValid _ _).isInward.bind fun _ => isInward_freshId.bind fun _ =>
  isInward_now.bind fun _ => (isInward_call _ _).bind fun _ => only_pure _

theorem isInward_update (refusal : Rego.Refusal) (id : String) (revision : Revision) :
    IsInward (update refusal id revision) := by
  refine (looksUp_require id).isInward.bind fun policy => IsInward.bind (only_ensure _ _) fun _ =>
    (looksUp_findVersion? _).isInward.bind fun found => ?_
  cases found <;>
    exact IsInward.bind (by trivial) fun _ => IsInward.bind (only_ensure _ _) fun _ =>
      (looksUp_nextVersion? ..).isInward.bind fun _ => isInward_now.bind fun _ =>
      (isInward_call _ _).bind fun _ => only_pure _

theorem isInward_delete (id : String) : IsInward (delete id) := by
  refine (looksUp_require id).isInward.bind fun policy => IsInward.bind (only_ensure _ _) fun _ =>
    (AssignmentScope.looksUp_assignments _).isInward.bind fun assignments => ?_
  have hmark : IsInward (do
      let _ ← call "error deleting policy" (.write Shelf.policies.index
        (.update { policy with deleted := true, updated := ← now }.document))) :=
    isInward_now.bind fun _ => (isInward_call _ _).bind fun _ => only_pure _
  dsimp only
  split
  · exact (isInward_call _ _).bind fun _ => hmark
  · exact hmark

end Policy

namespace PolicyGroup

theorem looksUp_get (name : String) : LooksUp (get name) := by
  refine (looksUp_ensure _ _).bind fun _ => (looksUp_call rfl).bind fun found => ?_
  cases found with
  | none => trivial
  | some d => exact looksUp_decoded _ _ _

theorem reads_get (name : String) : Reads (get name) := (looksUp_get ..).reads

theorem looksUp_getActive (name : String) : LooksUp (getActive name) :=
  (looksUp_get name).bind fun _ => (looksUp_ensure _ _).bind fun _ => only_pure _

theorem reads_getActive (name : String) : Reads (getActive name) := (looksUp_getActive ..).reads

theorem looksUp_list (o : ListOptions) : LooksUp (list o) := Service.looksUp_list ..

theorem reads_list (o : ListOptions) : Reads (list o) := (looksUp_list ..).reads

theorem isAtomic_create (name description : String) : IsAtomic (create name description) := by
  refine IsAtomic.bind (reads_ensure _ _) fun _ => IsAtomic.bind reads_now fun _ =>
    isAtomic_attempt_then ?_ ?_
  · exact fun _ => ⟨_, rfl⟩
  · intro e
    cases e <;> trivial

theorem isAtomic_update (name description : String) : IsAtomic (update name description) :=
  IsAtomic.bind (reads_getActive name) fun _ => IsAtomic.bind reads_now fun _ =>
  isAtomic_call_then fun _ => ⟨_, rfl⟩

theorem isAtomic_delete (name : String) : IsAtomic (delete name) := by
  refine IsAtomic.bind (reads_getActive name) fun g => IsAtomic.bind reads_now fun time => ?_
  rw [← bind_pure (save _)]
  exact isAtomic_call_then fun _ => ⟨_, rfl⟩

theorem isInward_create (name description : String) : IsInward (create name description) := by
  refine IsInward.bind (only_ensure _ _) fun _ => isInward_now.bind fun _ =>
    (isInward_attempt _).bind fun reply => ?_
  split <;> trivial

theorem isInward_save (g : PolicyGroup) : IsInward g.save := isInward_call _ _

theorem isInward_update (name description : String) : IsInward (update name description) :=
  (looksUp_getActive name).isInward.bind fun _ => isInward_now.bind fun _ =>
  (isInward_save _).bind fun _ => only_pure _

theorem isInward_delete (name : String) : IsInward (delete name) :=
  (looksUp_getActive name).isInward.bind fun _ => isInward_now.bind fun _ => isInward_save _

end PolicyGroup

namespace PolicyAssignment

theorem looksUp_get (id : String) : LooksUp (get id) := by
  refine (looksUp_ensure _ _).bind fun _ => (looksUp_call rfl).bind fun found => ?_
  cases found with
  | none => trivial
  | some d => exact looksUp_decoded _ _ _

theorem reads_get (id : String) : Reads (get id) := (looksUp_get ..).reads

theorem looksUp_checkReferences (versionId group : String) : LooksUp (checkReferences versionId group) := by
  refine (looksUp_ensure _ _).bind fun _ => ?_
  split
  · trivial
  · exact (Policy.looksUp_findVersion? _).bind fun _ => (looksUp_ensure _ _).bind fun _ =>
      (Policy.looksUp_require _).bind fun _ => (looksUp_ensure _ _).bind fun _ =>
      (PolicyGroup.looksUp_getActive _).bind fun _ => only_pure _

theorem reads_checkReferences (versionId group : String) : Reads (checkReferences versionId group) :=
  (looksUp_checkReferences ..).reads

theorem looksUp_list (scope : String) (o : ListOptions) : LooksUp (list scope o) :=
  (only_liftM _).bind fun _ => Service.looksUp_list ..

theorem reads_list (scope : String) (o : ListOptions) : Reads (list scope o) :=
  (looksUp_list ..).reads

theorem isAtomic_create (versionId group : String) : IsAtomic (create versionId group) := by
  refine IsAtomic.bind (reads_checkReferences _ _) fun _ => IsAtomic.bind reads_now fun _ =>
    isAtomic_attempt_then ?_ ?_
  · exact fun _ => ⟨_, rfl⟩
  · intro e
    cases e <;> trivial

theorem isAtomic_update (id versionId : String) : IsAtomic (update id versionId) :=
  IsAtomic.bind (reads_get id) fun _ => IsAtomic.bind (reads_checkReferences _ _) fun _ =>
  IsAtomic.bind (reads_ensure _ _) fun _ => IsAtomic.bind reads_now fun _ =>
  isAtomic_call_then fun _ => ⟨_, rfl⟩

theorem isAtomic_delete (id : String) : IsAtomic (delete id) := by
  refine IsAtomic.bind (reads_ensure _ _) fun _ =>
    isAtomic_attempt_then ?_ ?_
  · exact fun _ => ⟨_, rfl⟩
  · intro e
    cases e <;> trivial

theorem isInward_create (versionId group : String) : IsInward (create versionId group) := by
  refine (looksUp_checkReferences _ _).isInward.bind fun _ => isInward_now.bind fun _ =>
    (isInward_attempt _).bind fun reply => ?_
  split <;> trivial

theorem isInward_update (id versionId : String) : IsInward (update id versionId) :=
  (looksUp_get id).isInward.bind fun _ => (looksUp_checkReferences _ _).isInward.bind fun _ =>
  IsInward.bind (only_ensure _ _) fun _ => isInward_now.bind fun _ =>
  (isInward_call _ _).bind fun _ => only_pure _

theorem isInward_delete (id : String) : IsInward (delete id) := by
  refine IsInward.bind (only_ensure _ _) fun _ => (isInward_attempt _).bind fun reply => ?_
  split <;> trivial

end PolicyAssignment

namespace Resource

/-- To resolve a resource only the occurrence store is asked. -/
theorem only_resolve {P : Request → Prop} (h : ∀ q, P (.listOccurrences q)) (uri : String) :
    Only P (resolve uri) :=
  (only_ensure _ _).bind fun _ => (only_listOccurrences (h _)).bind fun _ =>
  (only_listOccurrences (h _)).bind fun _ => only_pure _

theorem only_resolveKnown {P : Request → Prop} (h : ∀ q, P (.listOccurrences q)) (uri : String) :
    Only P (resolveKnown uri) :=
  (only_ensure _ _).bind fun _ => only_resolve h uri

theorem reads_resolveKnown (uri : String) : Reads (resolveKnown uri) := only_resolveKnown (fun _ => rfl) uri

end Resource

namespace EvaluationRecord

theorem reads_run (version : PolicyVersion) (input : Json) : Reads (run version input) :=
  (reads_load _ _).bind fun _ => reads_evaluate _ _

theorem reads_evaluateAssigned (id : String) (time : Instant) (input : Json) (a : PolicyAssignment) :
    Reads (evaluateAssigned id time input a) := by
  refine (Policy.reads_findVersion? _).bind fun found => ?_
  cases found with
  | none => trivial
  | some v => exact (reads_run v input).bind fun _ => reads_freshId.bind fun _ => reads_pure _

theorem reads_evaluatePolicy (q : PolicyInquiry) : Reads (evaluatePolicy q) :=
  (reads_ensure _ _).bind fun _ => (reads_ensure _ _).bind fun _ =>
  (Policy.reads_getWithVersion _).bind fun x => (Resource.reads_resolveKnown _).bind fun _ =>
  (reads_run x.2 _).bind fun _ => reads_pure _

theorem looksUp_children (found : SearchResponse) : LooksUp (children found) :=
  Only.mapM (looksUp_decoded _ _) _

theorem reads_children (found : SearchResponse) : Reads (children found) :=
  (looksUp_children ..).reads

theorem looksUp_get (id : String) : LooksUp (get id) := by
  refine (looksUp_ensure _ _).bind fun _ => (looksUp_call rfl).bind fun answers => ?_
  split
  · split
    · trivial
    · exact (looksUp_decoded _ _ _).bind fun _ => (looksUp_children _).bind fun _ => only_pure _
  · trivial

theorem reads_get (id : String) : Reads (get id) := (looksUp_get ..).reads

theorem looksUp_list (q : HistoryInquiry) : LooksUp (list q) := by
  refine (looksUp_ensure _ _).bind fun _ => (Service.looksUp_list ..).bind fun page => ?_
  dsimp only
  split
  · trivial
  · exact (looksUp_call rfl).bind fun _ => (looksUp_ensure _ _).bind fun _ =>
      (Only.mapM looksUp_children _).bind fun _ => only_pure _

theorem reads_list (q : HistoryInquiry) : Reads (list q) := (looksUp_list ..).reads

end EvaluationRecord
end Gatehouse
