import Gatehouse.Proofs.Policy.Versions
import Gatehouse.Proofs.Service.Traffic

/-!
# What a rule engine is asked

A version is loaded under its id, and then its source is evaluated.  Nothing in a question to the rule
engine ties the two together, so a source could be evaluated that was never loaded, or an id could be
loaded with one source and later with another.  In a log of the service this does not happen.

1. **Coherence** (`IsCoherent`).  Every policy was loaded with the source of the version of its id, and what
   was evaluated was loaded right before.  Coherent logs may follow each other (`IsCoherent.append`), and
   versions may be added (`IsCoherent.mono`).
2. **Actions** (`LoadsFrom`).  Whatever is answered, what an action adds to the log is coherent.  Only what
   asks the rule engine counts (`SparesEngine`).
3. **The crux** is one version (`loadsFrom_run`).  It must be held under its own id, and this it is, by
   whichever id it was found (`Holds.version?_id`).
4. **Runs** (`Run.isCoherent`).  No call takes a version away or changes one, so what is coherent stays so.
-/

namespace Gatehouse

open Service Store Http

/-! ## Coherence -/

/-- Every policy was loaded with the source of the version of its id, and a policy was evaluated right
after it was loaded. -/
structure IsCoherent (version? : String → Option PolicyVersion) (xs : List (Exchange effects)) : Prop where
  loaded : ∀ id rego reply, ⟨.load id rego, reply⟩ ∈ xs →
    ∃ v, version? id = some v ∧ v.regoContent = rego
  evaluated : ∀ before rego input reply after, xs = before ++ ⟨.evaluate rego input, reply⟩ :: after →
    ∃ earlier id, before = earlier ++ [⟨.load id rego, .ok ()⟩]

namespace Service

/-- The request goes to the rule engine. -/
def Request.asksEngine : Request → Bool
  | .load .. | .evaluate .. => true
  | _ => false

theorem Request.asksEngine_of_not_isOutward {r : Request} (h : r.isOutward = false) :
    r.asksEngine = false := by
  cases r <;> trivial

end Service

namespace IsCoherent

variable {version? version'? : String → Option PolicyVersion} {xs ys : List (Exchange effects)}

/-- Where the rule engine is not asked there is nothing to show. -/
theorem of_forall (h : ∀ x ∈ xs, x.request.asksEngine = false) : IsCoherent version? xs where
  loaded id rego reply hx := absurd (h _ hx) (by simp [Request.asksEngine])
  evaluated before rego input reply after heq :=
    absurd (h ⟨.evaluate rego input, reply⟩ (by simp [heq])) (by simp [Request.asksEngine])

theorem mono (h : IsCoherent version? xs)
    (hsame : ∀ id v, version? id = some v → version'? id = some v) : IsCoherent version'? xs where
  loaded id rego reply hx := by
    obtain ⟨v, hv, hrego⟩ := h.loaded id rego reply hx
    exact ⟨v, hsame id v hv, hrego⟩
  evaluated := h.evaluated

theorem append (hxs : IsCoherent version? xs) (hys : IsCoherent version? ys) :
    IsCoherent version? (xs ++ ys) where
  loaded id rego reply hx := by
    rcases List.mem_append.1 hx with hx | hx
    · exact hxs.loaded id rego reply hx
    · exact hys.loaded id rego reply hx
  evaluated before rego input reply after heq := by
    rcases List.append_eq_append_iff.1 heq with ⟨more, rfl, rfl⟩ | ⟨more, rfl, hmore⟩
    · -- the evaluation is among the later exchanges, and so is what comes right before it
      obtain ⟨earlier, id, rfl⟩ := hys.evaluated more rego input reply after rfl
      exact ⟨xs ++ earlier, id, (List.append_assoc ..).symm⟩
    · cases more with
      | nil =>
        obtain ⟨earlier, id, hnil⟩ := hys.evaluated [] rego input reply after hmore.symm
        simp at hnil
      | cons x more =>
        obtain ⟨rfl, rfl⟩ := List.cons.inj hmore
        exact hxs.evaluated before rego input reply more rfl

/-- One more exchange. -/
theorem concat (hxs : IsCoherent version? xs) {x : Exchange effects}
    (hload : ∀ id rego reply, x = ⟨.load id rego, reply⟩ → ∃ v, version? id = some v ∧ v.regoContent = rego)
    (hevaluate : ∀ rego input reply, x = ⟨.evaluate rego input, reply⟩ →
      ∃ earlier id, xs = earlier ++ [⟨.load id rego, .ok ()⟩]) : IsCoherent version? (xs ++ [x]) where
  loaded id rego reply hx := by
    rcases List.mem_append.1 hx with hx | hx
    · exact hxs.loaded id rego reply hx
    · exact hload id rego reply (List.mem_singleton.1 hx).symm
  evaluated before rego input reply after heq := by
    rcases List.eq_nil_or_concat' after with rfl | ⟨after, y, rfl⟩
    · obtain ⟨rfl, hx⟩ := List.append_inj' heq rfl
      exact hevaluate rego input reply (List.head_eq_of_cons_eq hx)
    · rw [← List.cons_append, ← List.append_assoc] at heq
      obtain ⟨rfl, -⟩ := List.append_inj' heq rfl
      exact hxs.evaluated before rego input reply after rfl

end IsCoherent

/-! ## Actions -/

namespace Service

variable {α β : Type} {h : Holdings}

/-- From a state that keeps the holdings, whatever is answered, the action loads versions that are held and
evaluates what it has loaded. -/
def LoadsFrom (h : Holdings) (a : Action α) : Prop :=
  ∀ ⦃s t : State⦄ ⦃r : Except ServiceError α⦄, s.Keeps h → Ends surroundings a s r t →
    ∃ xs, t.log = s.log ++ xs ∧ IsCoherent h.version? xs

/-- The action does not ask the rule engine. -/
def SparesEngine (a : Action α) : Prop := Only (fun r => r.asksEngine = false) a

theorem IsInward.sparesEngine {a : Action α} (ha : IsInward a) : SparesEngine a :=
  Only.mono ha fun _ => Request.asksEngine_of_not_isOutward

theorem SparesEngine.loadsFrom {a : Action α} (ha : SparesEngine a) : LoadsFrom h a := by
  intro s t r _ he
  obtain ⟨xs, hlog, hxs⟩ := Only.log_eq ha he
  exact ⟨xs, hlog, .of_forall hxs⟩

/-- What was read, and what is done with it. -/
theorem LoadsFrom.bind {a : Action α} {f : α → Action β} (ha : LoadsFrom h a) (hreads : Reads a)
    (hf : ∀ s x m, s.Keeps h → Ends surroundings a s (.ok x) m → LoadsFrom h (f x)) :
    LoadsFrom h (a >>= f) := by
  intro s t r hs he
  rcases ends_bind.1 he with ⟨x, m, hx, he⟩ | ⟨e, herror, rfl⟩
  · obtain ⟨xs, hlog, hxs⟩ := ha hs hx
    obtain ⟨ys, hlog', hys⟩ := hf s x m hs hx (hreads.keeps hx hs) he
    exact ⟨xs ++ ys, by rw [hlog', hlog, List.append_assoc], hxs.append hys⟩
  · exact ha hs herror

/-- What does not ask the rule engine may come first. -/
theorem SparesEngine.bind_loadsFrom {a : Action α} {f : α → Action β} (ha : SparesEngine a)
    (hreads : Reads a) (hf : ∀ x, LoadsFrom h (f x)) : LoadsFrom h (a >>= f) :=
  ha.loadsFrom.bind hreads fun _ x _ _ _ => hf x

theorem LooksUp.bind_loadsFrom {a : Action α} {f : α → Action β} (ha : LooksUp a)
    (hf : ∀ x, LoadsFrom h (f x)) : LoadsFrom h (a >>= f) :=
  ha.isInward.sparesEngine.bind_loadsFrom ha.reads hf

theorem LoadsFrom.mapM {f : β → Action α} (hf : ∀ b, LoadsFrom h (f b)) (hreads : ∀ b, Reads (f b))
    (bs : List β) : LoadsFrom h (bs.mapM f) := by
  induction bs with
  | nil => exact SparesEngine.loadsFrom (only_pure _)
  | cons b bs ih =>
    rw [List.mapM_cons]
    exact (hf b).bind (hreads b) fun _ _ _ _ _ => ih.bind (Reads.mapM hreads bs) fun _ _ _ _ _ =>
      SparesEngine.loadsFrom (only_pure _)

end Service

namespace EvaluationRecord

variable {h : Holdings}

/-- **A version that is held is loaded with its source and then evaluated.** -/
theorem loadsFrom_run {v : PolicyVersion} (hv : h.version? v.id = some v) (input : Json) :
    LoadsFrom h (run v input) := by
  have hnone : IsCoherent h.version? [] := .of_forall (by simp)
  have hloaded : ∀ reply, IsCoherent h.version? [⟨.load v.id v.regoContent, reply⟩] := fun reply =>
    hnone.concat (fun id rego _ heq => by
      obtain ⟨rfl, rfl⟩ := Request.load.inj (Exchange.mk.inj heq).1
      exact ⟨v, hv, rfl⟩) fun _ _ _ heq => nomatch heq
  intro s t r _ he
  rcases ends_bind.1 he with ⟨_, m, hload, he⟩ | ⟨e, hload, rfl⟩
  · obtain ⟨reply, hreply, rfl⟩ := ends_load.1 hload
    cases reply with
    | error e => contradiction
    | ok _ =>
      obtain ⟨reply', -, rfl⟩ := ends_evaluate.1 he
      refine ⟨_, List.append_assoc .., (hloaded (.ok ())).concat (fun _ _ _ heq => nomatch heq)
        fun rego input' _ heq => ?_⟩
      obtain ⟨rfl, rfl⟩ := Request.evaluate.inj (Exchange.mk.inj heq).1
      exact ⟨[], v.id, rfl⟩
  · obtain ⟨reply, -, rfl⟩ := ends_load.1 hload
    exact ⟨_, rfl, hloaded reply⟩

theorem loadsFrom_evaluateAssigned (recordId : String) (time : Instant) (input : Json)
    (a : PolicyAssignment) : LoadsFrom h (evaluateAssigned recordId time input a) := by
  refine (Policy.looksUp_findVersion? _).isInward.sparesEngine.loadsFrom.bind
    (Policy.reads_findVersion? _) fun s found m hs he => ?_
  obtain ⟨hfound, -⟩ := (ends_findVersion? hs).1 he
  obtain rfl := Except.ok.inj hfound
  cases hv : h.version? a.policyVersionId with
  | none => exact SparesEngine.loadsFrom (only_throw _)
  | some v =>
    exact (loadsFrom_run (hs.holds.version?_id hv) input).bind (reads_run v input) fun _ _ _ _ _ =>
      SparesEngine.loadsFrom (isInward_freshId.sparesEngine.bind fun _ => only_pure _)

/-- A preparation, with whatever it finds, loads versions that are held. -/
theorem loadsFrom_prepare (q : ResourceInquiry) : LoadsFrom h (prepare q) := by
  refine (looksUp_ensure _ _).bind_loadsFrom fun _ => (looksUp_ensure _ _).bind_loadsFrom fun _ => ?_
  refine SparesEngine.bind_loadsFrom (Resource.only_resolveKnown (fun _ => rfl) _)
    (Resource.reads_resolveKnown _) fun resolved => ?_
  refine (PolicyGroup.looksUp_getActive _).bind_loadsFrom fun group => ?_
  refine (AssignmentScope.looksUp_assignments _).bind_loadsFrom fun assignments => ?_
  refine (looksUp_ensure _ _).bind_loadsFrom fun _ => looksUp_now.bind_loadsFrom fun time => ?_
  refine looksUp_freshId.bind_loadsFrom fun id => ?_
  exact (LoadsFrom.mapM (loadsFrom_evaluateAssigned _ _ _) (reads_evaluateAssigned _ _ _) _).bind
    (Reads.mapM (reads_evaluateAssigned _ _ _) _) fun _ _ _ _ _ => SparesEngine.loadsFrom (only_pure _)

theorem loadsFrom_create (q : ResourceInquiry) : LoadsFrom h (create q) := by
  rw [create_eq]
  refine (loadsFrom_prepare q).bind (reads_prepare q) fun _ r _ _ _ => SparesEngine.loadsFrom ?_
  exact (isInward_call _ _).sparesEngine.bind fun _ => only_pure _

theorem loadsFrom_evaluatePolicy (q : PolicyInquiry) : LoadsFrom h (evaluatePolicy q) := by
  refine (looksUp_ensure _ _).bind_loadsFrom fun _ => (looksUp_ensure _ _).bind_loadsFrom fun _ => ?_
  refine (Policy.looksUp_getWithVersion _).isInward.sparesEngine.loadsFrom.bind
    (Policy.reads_getWithVersion _) fun s x m hs hfound => ?_
  refine SparesEngine.bind_loadsFrom (Resource.only_resolveKnown (fun _ => rfl) _)
    (Resource.reads_resolveKnown _) fun resolved => ?_
  obtain ⟨-, -, hv, -⟩ := (ends_getWithVersion_ok hs).1 hfound
  exact (loadsFrom_run (hs.holds.version?_id hv) _).bind (reads_run _ _) fun _ _ _ _ _ =>
    SparesEngine.loadsFrom (only_pure _)

end EvaluationRecord

/-! ## Calls and runs -/

namespace Service

section Runs

variable {svc : Service} {s t : State} {h : Holdings}

theorem loadsFrom_perform (svc : Service) (caller : Access.Caller) (o : Operation) :
    LoadsFrom h (svc.perform caller o) := by
  refine SparesEngine.bind_loadsFrom (only_liftM _) (reads_liftM _) fun _ => ?_
  cases ho : o.evaluates with
  | false => exact (isInward_action ho).sparesEngine.loadsFrom
  | true =>
    cases o with
    | evaluateResource q => exact EvaluationRecord.loadsFrom_create q
    | evaluatePolicy q => exact EvaluationRecord.loadsFrom_evaluatePolicy q
    | _ => contradiction

/-- What a call amounts to takes no version away and changes none. -/
theorem Amounts.version?_mono {refusal : Rego.Refusal} {o : Operation} {r : Except ServiceError o.Result}
    {h' : Holdings} (ha : Amounts refusal s t h r h') (hs : s.Keeps h) (ht : t.Keeps h') (id : String)
    (v : PolicyVersion) (hv : h.version? id = some v) : h'.version? id = some v := by
  obtain ⟨hmem, hid⟩ := hs.holds.version?_eq_some.1 hv
  refine ht.holds.version?_eq_some.2 ⟨?_, hid⟩
  cases r with
  | ok r => exact Change.version_mem hs ha hmem
  | error e => exact ha.1 ▸ hmem

/-- **Calls keep the log coherent.** -/
theorem Run.isCoherent {steps : List Step} (hrun : Run svc s steps t) (hs : s.Keeps h)
    (hc : IsCoherent h.version? s.log) : ∃ h', t.Keeps h' ∧ IsCoherent h'.version? t.log := by
  induction hrun generalizing h with
  | nil s => exact ⟨h, hs, hc⟩
  | @cons x steps t call rest ih =>
    obtain ⟨h', hs', hamounts⟩ := perform_ends hs call
    obtain ⟨xs, hlog, hxs⟩ := loadsFrom_perform svc x.caller x.operation hs call
    exact ih hs' (hlog ▸ (hc.append hxs).mono (hamounts.version?_mono hs hs'))

end Runs
end Service
end Gatehouse
