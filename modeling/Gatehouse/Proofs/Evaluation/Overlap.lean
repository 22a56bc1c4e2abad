import Gatehouse.Proofs.Evaluation.Retrieval
import Gatehouse.Proofs.Service.Concurrency

/-!
# Evaluations that are made and read at the same time

Any number of calls evaluate resources and read records, at the same time, in a state that was reached by
calls one after the other.  An evaluation asks many questions and then saves its record in one request.

1. **What was saved** (`Logged`).  Records from before are held, then those that calls have saved, in the
   order in which they did, and nothing else was written.
2. **What is known** (`Known`): records from before, and those that a call has saved.  What is known once
   stays known, and what is known is held.
3. **Each call withstands the others.**  An evaluation gathers a sound record (`gathers_prepare`) and
   saves it or fails (`withstands_save`).  What a reader puts together was held when its last request was
   answered (`withstands_get`, `withstands_list`).
4. **So it is at every moment** (`overlapping_evaluations`): the log is made of the records of the
   evaluations that are done, each of them whole, and what was read is one of these or one from before.
-/

namespace Gatehouse

open Service Store

namespace Service

/-! ## What calls make and read -/

/-- The records that an operation reads. -/
def Operation.read : (o : Operation) → o.Result → List EvaluationRecord
  | getResourceEvaluation _, r => [r]
  | listResourceEvaluations _, page => page.items
  | _, _ => []

/-- The record that was made in a step. -/
def Step.made (x : Step) : List EvaluationRecord :=
  match x.outcome with
  | .ok r => x.operation.made r
  | .error _ => []

/-- The record that a call has made, if it is done.  A call that was abandoned on its way, or has failed,
has made none. -/
def Pool.made {ι : Type} {calls : ι → Invocation} (pool : Pool calls) (i : ι) : List EvaluationRecord :=
  match pool i with
  | .done (.ok r) => (calls i).operation.made r
  | _ => []

end Service

/-- A write was made. -/
def Exchange.lands : Exchange effects → Bool
  | ⟨.store (.write ..), .ok _⟩ | ⟨.store (.bulk ..), .ok _⟩ => true
  | _ => false

namespace Exchange

theorem lands_of_not_isWrite {x : Exchange effects} (hx : x.request.isWrite = false) :
    x.lands = false := by
  unfold lands
  split
  · contradiction
  · contradiction
  · rfl

theorem lands_error (q : Call) (e : StoreError) : lands ⟨.store q, .error e⟩ = false := by
  cases q <;> rfl

end Exchange

namespace EvaluationRecord

variable {ι : Type}

/-! ## What was saved -/

/-- The one request in which a record is saved. -/
abbrev saveCall (r : EvaluationRecord) : Call :=
  .bulk Shelf.evaluations.index (r.documents.map Write.create)

/-- The turn in which a call saves a record. -/
def saving (i : ι) (r : EvaluationRecord) : Turn ι := ⟨i, ⟨.store (saveCall r), .ok ()⟩⟩

theorem documents_of_saving {i j : ι} {r r' : EvaluationRecord} (h : saving i r = saving j r') :
    r.documents = r'.documents := by
  have hrequest : Request.store (saveCall r) = .store (saveCall r') :=
    congrArg (fun x => x.exchange.request) h
  injection hrequest with hcall
  injection hcall with _ hwrites
  exact (List.map_injective_iff.2 fun _ _ heq => Write.create.inj heq) hwrites

/-- Records are held beside those from before: those that were saved, each by its call.  Nothing else was
written. -/
structure Logged (h : Holdings) (c : Course ι) (saved : List (ι × EvaluationRecord)) : Prop where
  keeps : c.state.Keeps { h with records := h.records ++ saved.map Prod.snd }
  turns : c.turns.filter (fun x => x.exchange.lands) = saved.map fun x => saving x.1 x.2

/-- A record is from before, or a call has saved it. -/
structure Known (h : Holdings) (c : Course ι) (r : EvaluationRecord) : Prop where
  sound : RecordIsSound c.state r
  source : r ∈ h.records ∨ ∃ i, saving i r ∈ c.turns

section Log

variable {i : ι} {c d : Course ι} {h : Holdings} {r : EvaluationRecord}
  {saved : List (ι × EvaluationRecord)} {P : Turn ι → Prop}

/-- What is known stays known. -/
theorem Known.mono (hr : Known h c r) (hcd : c.Continues P d) : Known h d r where
  sound := hr.sound.mono hcd.log_isPrefix
  source := hr.source.imp_right fun ⟨i, hi⟩ => ⟨i, hcd.turns_isPrefix.subset hi⟩

/-- What is held is known. -/
theorem Logged.known (hc : Logged h c saved) (hr : r ∈ h.records ++ saved.map Prod.snd) : Known h c r where
  sound := hc.keeps.sound.records r hr
  source := by
    rcases List.mem_append.1 hr with hr | hr
    · exact .inl hr
    · obtain ⟨x, hx, rfl⟩ := List.mem_map.1 hr
      have hturn : saving x.1 x.2 ∈ c.turns.filter fun x => x.exchange.lands :=
        hc.turns ▸ List.mem_map_of_mem hx
      exact .inr ⟨x.1, List.mem_of_mem_filter hturn⟩

/-- **And what is known is held.** -/
theorem Logged.mem_of_known (hc : Logged h c saved) (hr : Known h c r) :
    r ∈ h.records ++ saved.map Prod.snd := by
  obtain hr' | ⟨i, hi⟩ := hr.source
  · exact List.mem_append_left _ hr'
  · have hturn : saving i r ∈ c.turns.filter fun x => x.exchange.lands := List.mem_filter.2 ⟨hi, rfl⟩
    rw [hc.turns] at hturn
    obtain ⟨x, hx, hsame⟩ := List.mem_map.1 hturn
    have hmem : x.2 ∈ h.records ++ saved.map Prod.snd :=
      List.mem_append_right _ (List.mem_map_of_mem hx)
    have hsound : RecordIsSound c.state x.2 := hc.keeps.sound.records x.2 hmem
    rwa [← eq_of_documents hc.keeps.honest hsound hr.sound (documents_of_saving hsame)]

/-! ## What a turn does to the log -/

/-- A request that writes nothing, and a write that is refused, change nothing. -/
theorem Logged.after (hc : Logged h c saved) {q : Request} {reply : q.Reply}
    (hkeeps : (c.state.after q reply).Keeps { h with records := h.records ++ saved.map Prod.snd })
    (hlands : Exchange.lands ⟨q, reply⟩ = false) : Logged h (c.after i q reply) saved where
  keeps := hkeeps
  turns := by
    rw [Course.after_turns, List.filter_append, hc.turns, List.filter_cons_of_neg (by simpa using hlands),
      List.filter_nil, List.append_nil]

/-- **A record that is sound is saved at the end of the log.** -/
theorem Logged.save (hc : Logged h c saved) (hr : RecordIsSound c.state r)
    (hreply : (Memory.perform (saveCall r) c.state.memory).1 = .ok ()) :
    Logged h (c.after i (.store (saveCall r)) (.ok ())) (saved ++ [(i, r)]) where
  keeps := by
    have hrecords : h.records ++ (saved ++ [(i, r)]).map Prod.snd =
        (h.records ++ saved.map Prod.snd) ++ [r] := by
      simp
    have hlog : c.state.log <+: (c.after i (.store (saveCall r)) (.ok ())).state.log :=
      List.prefix_append _ _
    have hsound := hc.keeps.sound.mono hlog
    rw [hrecords]
    refine ⟨hc.keeps.honest.after (q := .store _) hreply.symm, ?_, { hsound with records := ?_ }⟩
    · refine hc.keeps.holds.of_perform_bulk _ hreply ?_
        (Holdings.documents_frame (.inr rfl) (.inr rfl) (.inr rfl) (.inl rfl))
      rw [Write.foldl_create]
      simp [Holdings.documents]
    · intro x hx
      rcases List.mem_append.1 hx with hx | hx
      · exact hsound.records x hx
      · obtain rfl := List.mem_singleton.1 hx
        exact hr.mono hlog
  turns := by
    rw [Course.after_turns, List.filter_append, hc.turns, List.map_append]
    rfl

end Log

/-! ## Terms -/

section Calls

variable [DecidableEq ι] {i : ι} {c d : Course ι} {h : Holdings} {P : Turn ι → Prop}

/-- The turns in which a call has written. -/
def writesOf (i : ι) (turns : List (Turn ι)) : List (Turn ι) :=
  turns.filter fun x => decide (x.call = i) && x.exchange.lands

theorem writesOf_append (i : ι) (turns more : List (Turn ι)) :
    writesOf i (turns ++ more) = writesOf i turns ++ writesOf i more := List.filter_append ..

/-- A call that writes nothing has written what it had. -/
theorem writesOf_eq (hcd : c.Continues P d) (hP : ∀ x, P x → x.call = i → x.exchange.lands = false) :
    writesOf i d.turns = writesOf i c.turns := by
  obtain ⟨more, hturns, -, hmore⟩ := hcd
  have hnone : writesOf i more = [] := by
    refine List.filter_eq_nil_iff.2 fun x hx => ?_
    by_cases hcall : x.call = i
    · simp [hP x (hmore x hx) hcall]
    · simp [hcall]
  rw [hturns, writesOf_append, hnone, List.append_nil]

theorem writesOf_of_waits (hcd : c.Waits i d) : writesOf i d.turns = writesOf i c.turns :=
  writesOf_eq hcd fun _ hne heq => absurd heq hne

/-- What calls that evaluate and read agree upon: the log.  A call that is not done has written nothing. -/
def terms (h : Holdings) : Terms ι where
  inv c := ∃ saved, Logged h c saved
  grows _ _ := True
  pending i c := writesOf i c.turns = []
  refl _ := trivial
  trans _ _ := trivial
  stable hwaits hpending := (writesOf_of_waits hwaits).trans hpending
  quiet := by
    intro i c q reply hq hreply ⟨saved, hc⟩
    have hlands : Exchange.lands ⟨q, reply⟩ = false := Exchange.lands_of_not_isWrite hq
    refine ⟨⟨saved, hc.after (hc.keeps.after hreply hq) hlands⟩, trivial, fun hpending => ?_⟩
    have hafter : c.Continues (fun x => x.exchange.lands = false) (c.after i q reply) := .after _ q reply hlands
    exact (writesOf_eq hafter fun _ hx _ => hx).trans hpending

/-- What is true of a call that is done: it has saved the record that it made, if it made one, and what it
made and read is known. -/
def Settled (h : Holdings) (i : ι) (o : Operation) : Except ServiceError o.Result → Course ι → Prop
  | .ok x, c => writesOf i c.turns = (o.made x).map (saving i) ∧ ∀ r ∈ o.made x ++ o.read x, Known h c r
  | .error _, c => writesOf i c.turns = []

/-- What others do changes nothing about it. -/
theorem Settled.mono {o : Operation} {result : Except ServiceError o.Result} (hc : Settled h i o result c)
    (hcd : c.Waits i d) : Settled h i o result d := by
  have hsame := writesOf_of_waits hcd
  cases result with
  | ok x => exact ⟨hsame.trans hc.1, fun r hr => (hc.2 r hr).mono hcd⟩
  | error x => exact hsame.trans hc

end Calls

/-! ## Evaluations -/

section Gathering

variable {k : Terms ι} {i : ι} {c : Course ι}

/-- Whatever is found out about a resource, no time is among it. -/
theorem gathers_resolveKnown (uri : String) (hI : k.inv c) (hpending : k.pending i c) :
    Gathers k i (fun resolved _ => resolved.resourceVersion.created? = none) (Resource.resolveKnown uri) c := by
  refine gathers_ensure_bind hpending fun _ => gathers_ensure_bind hpending fun _ => ?_
  refine (reads_listOccurrences _ _).gathers_bind (asksOnce_listOccurrences _ _) hI hpending
    fun builds d₁ e₁ he₁ => ?_
  refine (reads_listOccurrences _ _).gathers_bind (asksOnce_listOccurrences _ _) he₁.inv he₁.pending
    fun related d₂ e₂ he₂ => ?_
  exact gathers_pure he₂.inv he₂.pending rfl

/-- A child is of a record, and was made at its time under an id of its own. -/
structure Attributed (recordId : String) (time : Instant) (child : PolicyEvaluation) (c : Course ι) :
    Prop where
  id : child.id ∈ c.state.given
  parent : child.resourceEvaluationId = recordId
  time : child.created = time

theorem gathers_evaluateAssigned {recordId : String} {time : Instant} {input : Json}
    (a : PolicyAssignment) (hI : k.inv c) (hpending : k.pending i c) :
    Gathers k i (Attributed recordId time) (evaluateAssigned recordId time input a) c := by
  refine (Policy.reads_findVersion? _).gathers_bind (Policy.asksOnce_findVersion? _) hI hpending
    fun found d₁ e₁ he₁ => ?_
  cases found with
  | none => exact gathers_throw he₁.pending
  | some v =>
    simp only [run, bind_assoc]
    refine (reads_load _ _).gathers_bind (asksOnce_load _ _) he₁.inv he₁.pending fun _ d₂ e₂ he₂ => ?_
    refine (reads_evaluate _ _).gathers_bind (asksOnce_evaluate _ _) he₂.inv he₂.pending
      fun evaluation d₃ e₃ he₃ => ?_
    refine reads_freshId.gathers_bind asksOnce_freshId he₃.inv he₃.pending fun id d₄ e₄ he₄ => ?_
    exact gathers_pure he₄.inv he₄.pending ⟨mem_given_of_freshId he₄.ends, rfl, rfl⟩

/-- **What an evaluation gathers is a sound record**, whatever the others do. -/
theorem gathers_prepare (q : ResourceInquiry) (hI : k.inv c) (hpending : k.pending i c) :
    Gathers k i (fun r d => RecordIsSound d.state r) (prepare q) c := by
  refine gathers_ensure_bind hpending fun _ => gathers_ensure_bind hpending fun _ => ?_
  refine (gathers_resolveKnown _ hI hpending).bind fun resolved d₁ hd₁ hresolved => ?_
  refine (PolicyGroup.reads_getActive _).gathers_bind (PolicyGroup.asksOnce_getActive _) hd₁.inv hd₁.pending
    fun group d₂ e₂ he₂ => ?_
  refine (AssignmentScope.reads_assignments _).gathers_bind (AssignmentScope.asksOnce_assignments _)
    he₂.inv he₂.pending fun assignments d₃ e₃ he₃ => ?_
  refine gathers_ensure_bind he₃.pending fun _ => ?_
  refine reads_now.gathers_bind asksOnce_now he₃.inv he₃.pending fun time d₄ e₄ he₄ => ?_
  refine reads_freshId.gathers_bind asksOnce_freshId he₄.inv he₄.pending fun id d₅ e₅ he₅ => ?_
  have hchildren : Gathers k i (fun children d => ∀ child ∈ children, Attributed id time child d)
      (assignments.mapM (evaluateAssigned id time (input resolved))) e₅ := by
    refine Gathers.mapM he₅.inv he₅.pending (fun hlater hchild => ?_) fun a _ d hI hpending =>
      gathers_evaluateAssigned a hI hpending
    exact { hchild with id := State.given_subset hlater.idles.log_isPrefix hchild.id }
  refine hchildren.bind fun children d₆ hd₆ hchildren => gathers_pure hd₆.inv hd₆.pending ?_
  have hshown : time ∈ d₆.state.times :=
    State.times_subset (he₅.idles.trans hd₆.idles).log_isPrefix (mem_times_of_now he₄.ends)
  exact {
    id := State.given_subset hd₆.idles.log_isPrefix (mem_given_of_freshId he₅.ends)
    time := hshown
    resource := hresolved
    childId := fun child hchild => (hchildren child hchild).id
    childTime := fun child hchild => (hchildren child hchild).time.symm ▸ hshown
    parent := fun child hchild => (hchildren child hchild).parent
    pass := rfl }

end Gathering

/-! ## The calls -/

section Calls

variable [DecidableEq ι] {i : ι} {c : Course ι} {h : Holdings} {r : EvaluationRecord}

/-- **A record is saved, or nothing is written.** -/
theorem withstands_save {q : ResourceInquiry} (hpending : writesOf i c.turns = [])
    (hr : RecordIsSound c.state r) :
    Withstands (terms h) i (Settled h i (.evaluateResource q)) (do save r; return r) c := by
  refine withstands_call_bind hpending fun d hwaits _ ⟨saved, hc⟩ reply hreply => ?_
  have hpending' : writesOf i d.turns = [] := (writesOf_of_waits hwaits).trans hpending
  cases reply with
  | error x =>
    refine ⟨⟨saved, hc.after (hc.keeps.after_of_error hreply) (Exchange.lands_error _ _)⟩, trivial, ?_⟩
    have hafter : d.Continues (fun x => x.exchange.lands = false) (d.after i (.store (saveCall r)) (.error x)) :=
      .after _ _ _ (Exchange.lands_error _ _)
    exact (writesOf_eq hafter fun _ hx _ => hx).trans hpending'
  | ok _ =>
    have hr' := hr.mono hwaits.log_isPrefix
    have hsaved := hc.save (i := i) hr' hreply
    refine ⟨⟨_, hsaved⟩, trivial, ?_, fun x hx => ?_⟩
    · have hlast : writesOf i [saving i r] = [saving i r] := by
        simp [writesOf, saving, Exchange.lands]
      rw [Course.after_turns, writesOf_append, hpending']
      exact hlast
    · obtain rfl := List.mem_singleton.1 hx
      exact hsaved.known (by simp)

/-- **An evaluation withstands the others.** -/
theorem withstands_create {q : ResourceInquiry} (hI : (terms h).inv c) (hpending : writesOf i c.turns = []) :
    Withstands (terms h) i (Settled h i (.evaluateResource q)) (create q) c := by
  rw [create_eq]
  refine (gathers_prepare q hI hpending).withstands_bind (fun _ _ hd => hd) fun r d hd hr => ?_
  exact withstands_save hd.pending hr

/-- **What reads a record withstands the others.** -/
theorem withstands_get {id : String} (hI : (terms h).inv c) (hpending : writesOf i c.turns = []) :
    Withstands (terms h) i (Settled h i (.getResourceEvaluation id)) (get id) c := by
  rw [← bind_pure (get id)]
  refine (reads_get id).withstands_bind (asksOnce_get id) hI hpending (fun _ _ hd => hd) fun r d e he => ?_
  obtain ⟨saved, hd⟩ := he.before
  have hr : Known h e r := (hd.known (mem_records_of_get hd.keeps he.ends)).mono he.own
  exact ⟨he.pending, List.forall_mem_singleton.2 hr⟩

theorem reads_complete (page : Page ResourceEvaluation) : Reads (complete page) := by
  unfold complete
  dsimp only
  split
  · trivial
  · exact (reads_call rfl).bind fun _ => (reads_ensure _ _).bind fun _ =>
      (Reads.mapM reads_children _).bind fun _ => reads_pure _

theorem asksOnce_complete (page : Page ResourceEvaluation) : AsksOnce (complete page) := by
  unfold complete
  dsimp only
  split
  · trivial
  · exact (asksOnce_call _ _).bind fun _ => (isSilent_ensure _ _).bind fun _ =>
      (IsSilent.mapM (fun found => IsSilent.mapM (isSilent_decoded _ _) _) _).bind fun _ => trivial

/-- **And so does what reads a page of them**, although other records may be saved between its requests. -/
theorem withstands_list {q : HistoryInquiry} (hI : (terms h).inv c) (hpending : writesOf i c.turns = []) :
    Withstands (terms h) i (Settled h i (.listResourceEvaluations q)) (list q) c := by
  rw [list_eq]
  refine withstands_ensure_bind (fun _ => hpending) fun _ => ?_
  refine (Service.reads_list ..).withstands_bind asksOnce_list hI hpending (fun _ _ hd => hd)
    fun page d₁ e₁ he₁ => ?_
  -- the parents that were found are those of records that are known from now on
  obtain ⟨saved₁, hd₁⟩ := he₁.before
  obtain ⟨rs, hheld, hitems⟩ := parents_of_list hd₁.keeps he₁.ends
  have hknown : ∀ r ∈ rs, Known h e₁ r := fun r hr => (hd₁.known (hheld r hr)).mono he₁.own
  rw [← bind_pure (complete page)]
  refine (reads_complete _).withstands_bind (asksOnce_complete _) he₁.inv he₁.pending (fun _ _ hd => hd)
    fun result d₂ e₂ he₂ => ?_
  obtain ⟨saved₂, hd₂⟩ := he₂.before
  have hheld₂ : ∀ r ∈ rs, r ∈ h.records ++ saved₂.map Prod.snd := fun r hr =>
    hd₂.mem_of_known ((hknown r hr).mono he₂.others)
  have hends := he₂.ends
  rw [show page = ⟨rs.map resourceEvaluation, page.nextPageToken⟩ from hitems ▸ rfl] at hends
  have hresult := items_of_complete hd₂.keeps hheld₂ hends
  refine ⟨he₂.pending, fun r hr => ?_⟩
  have hmem : r ∈ rs := hresult ▸ hr
  exact ((hknown r hmem).mono he₂.others).mono he₂.own

/-- **Every call that evaluates or reads withstands the others.** -/
theorem withstands_evaluation {refusal : Rego.Refusal} {o : Operation} (hI : (terms h).inv c)
    (hpending : writesOf i c.turns = [])
    (ho : (∃ q, o = .evaluateResource q) ∨ (∃ id, o = .getResourceEvaluation id) ∨
      ∃ q, o = .listResourceEvaluations q) :
    Withstands (terms h) i (Settled h i o) (o.action refusal) c := by
  rcases ho with ⟨q, rfl⟩ | ⟨id, rfl⟩ | ⟨q, rfl⟩
  · exact withstands_create hI hpending
  · exact withstands_get hI hpending
  · exact withstands_list hI hpending

end Calls

/-! ## At every moment -/

section Overlap

variable {svc : Service} {earlier : List Step} {s : State} {h : Holdings}

/-- What is held was made in a step. -/
theorem made_of_run (hearlier : Run svc .initial earlier s) :
    ∃ h, s.Keeps h ∧ ∀ r ∈ h.records, ∃ x ∈ earlier, r ∈ x.made := by
  refine hearlier.keeps_of (I := fun h => ∀ r ∈ h.records, ∃ x ∈ earlier, r ∈ x.made) State.keeps_initial
    (fun r hr => absurd hr List.not_mem_nil) ?_
  intro x hx result h h' hok _ hchange hmade r hr
  rw [hchange.records_eq] at hr
  rcases List.mem_append.1 hr with hr | hr
  · exact hmade r hr
  · refine ⟨x, hx, ?_⟩
    rw [Step.made, hok]
    exact hr

/-- Records that were saved in the same turns are the same. -/
theorem eq_of_map_saving {i : ι} (hs : s.IsHonest) {xs ys : List EvaluationRecord}
    (hxs : ∀ x ∈ xs, RecordIsSound s x) (hys : ∀ y ∈ ys, RecordIsSound s y)
    (h : xs.map (saving i) = ys.map (saving i)) : xs = ys := by
  induction xs generalizing ys with
  | nil => exact (List.map_eq_nil_iff.1 h.symm).symm
  | cons x xs ih =>
    obtain ⟨y, ys, rfl, hxy, hrest⟩ := List.map_eq_cons_iff.1 h.symm
    rw [eq_of_documents hs (hxs x List.mem_cons_self) (hys y List.mem_cons_self)
      (documents_of_saving hxy.symm), ih (fun x hx => hxs x (List.mem_cons_of_mem _ hx))
      (fun y hy => hys y (List.mem_cons_of_mem _ hy)) hrest.symm]

/-- **What a call has saved** is what it has made. -/
theorem saved_of_writesOf [DecidableEq ι] {i : ι} {c : Course ι} {saved : List (ι × EvaluationRecord)}
    {made : List EvaluationRecord} (hc : Logged h c saved)
    (hwrites : writesOf i c.turns = made.map (saving i)) (hmade : ∀ r ∈ made, Known h c r) :
    (saved.filter fun x => x.1 = i).map Prod.snd = made := by
  have hown : writesOf i c.turns = ((saved.filter fun x => x.1 = i).map Prod.snd).map (saving i) := by
    rw [writesOf, ← List.filter_filter, hc.turns, List.filter_map, List.map_map]
    refine List.map_congr_left fun x hx => ?_
    have hcall : x.1 = i := of_decide_eq_true (List.mem_filter.1 hx).2
    rw [Function.comp_apply, hcall]
  refine eq_of_map_saving hc.keeps.honest (fun x hx => ?_) (fun r hr => (hmade r hr).sound)
    (hown.symm.trans hwrites)
  obtain ⟨y, hy, rfl⟩ := List.mem_map.1 hx
  exact hc.keeps.sound.records _
    (List.mem_append_right _ (List.mem_map_of_mem (List.mem_of_mem_filter hy)))

/-- A call has saved what it has made, be it done or not. -/
theorem settled_made [DecidableEq ι] {calls : ι → Invocation} {pool : Pool calls} {c : Course ι} {i : ι}
    (hi : (pool i).Withstands (among i) ((terms h).pact i) (Settled h i (calls i).operation) c) :
    writesOf i c.turns = (pool.made i).map (saving i) ∧ ∀ r ∈ pool.made i, Known h c r := by
  unfold Pool.made
  cases hleft : pool i with
  | done result =>
    rw [hleft] at hi
    cases result with
    | ok x => exact ⟨hi.1, fun r hr => hi.2 r (List.mem_append_left _ hr)⟩
    | error x => exact ⟨hi, fun r hr => absurd hr List.not_mem_nil⟩
  | ask q next =>
    -- it has not come to its write
    rw [hleft] at hi
    exact ⟨hi.1, fun r hr => absurd hr List.not_mem_nil⟩

/-- **Evaluations that are made and read at the same time.**  Calls one after the other have led to a
state, and then any number of calls evaluate resources, read records and list them, at the same time.  At
every moment, whichever calls have come to their end and whichever were abandoned:

* the log is what it was, followed by the documents of the records that were saved, each record whole.
  A call that has made a record has saved this one and nothing else.  A call that has not, because it was
  abandoned or has failed or only reads, has saved nothing;
* what a call has read, one record or a page of them, are records that evaluations have made.  Such a
  record has all of its children and no others, and passes if they do. -/
theorem overlapping_evaluations [DecidableEq ι] {calls : ι → Invocation} {pool : Pool calls}
    {c : Course ι} (hearlier : Run svc .initial earlier s)
    (hcalls : ∀ i, (∃ q, (calls i).operation = .evaluateResource q) ∨
      (∃ id, (calls i).operation = .getResourceEvaluation id) ∨
      ∃ q, (calls i).operation = .listResourceEvaluations q)
    (hrun : Concurrently svc calls s pool c) :
    (∃ saved : List (ι × EvaluationRecord),
      c.state.memory.documents Shelf.evaluations.index =
        s.memory.documents Shelf.evaluations.index ++ (saved.map Prod.snd).flatMap documents ∧
      ∀ i, (saved.filter fun x => x.1 = i).map Prod.snd = pool.made i) ∧
    ∀ i result, pool i = .done (.ok result) → ∀ r ∈ (calls i).operation.read result,
      ((∃ x ∈ earlier, r ∈ x.made) ∨ ∃ j, r ∈ pool.made j) ∧
      r.resourceEvaluation.pass = r.policyEvaluations.all PolicyEvaluation.pass ∧
      ∀ child ∈ r.policyEvaluations, child.resourceEvaluationId = r.resourceEvaluation.id := by
  obtain ⟨h, hs, hmade⟩ := made_of_run hearlier
  have hI : (terms h).inv (.start s : Course ι) := ⟨[], (List.append_nil h.records).symm ▸ hs, rfl⟩
  have hwithstands : ∀ i, Withstands (terms h) i (Settled h i (calls i).operation)
      (svc.perform (calls i).caller (calls i).operation) (.start s) := by
    intro i
    exact withstands_perform (fun _ => rfl) (withstands_evaluation hI rfl (hcalls i))
  obtain ⟨⟨saved, hc⟩, -, hleft⟩ := hrun.withstands (fun _ _ _ _ hwaits _ _ hsettled => hsettled.mono hwaits)
    hI hwithstands
  have hown : ∀ i, (saved.filter fun x => x.1 = i).map Prod.snd = pool.made i := by
    intro i
    obtain ⟨hwrites, hknown⟩ := settled_made (hleft i)
    exact saved_of_writesOf hc hwrites hknown
  refine ⟨⟨saved, ?_, hown⟩, fun i result hdone r hr => ?_⟩
  · rw [hc.keeps.documents_evaluations, hs.documents_evaluations, List.flatMap_append]
  · have hi := hleft i
    rw [hdone] at hi
    have hknown : Known h c r := hi.2 r (List.mem_append_right _ hr)
    refine ⟨?_, hknown.sound.pass, hknown.sound.parent⟩
    rcases List.mem_append.1 (hc.mem_of_known hknown) with hbefore | hsaved
    · exact .inl (hmade r hbefore)
    · obtain ⟨x, hx, rfl⟩ := List.mem_map.1 hsaved
      have hmem : x.2 ∈ (saved.filter fun y => y.1 = x.1).map Prod.snd :=
        List.mem_map_of_mem (List.mem_filter.2 ⟨hx, decide_eq_true rfl⟩)
      exact .inr ⟨x.1, hown x.1 ▸ hmem⟩

end Overlap
end EvaluationRecord

/-! ## A record that is made and read -/

namespace Service.First

/-- Two calls: one evaluates a resource, and one reads a record. -/
def observers (id : String) : Fin 2 → Invocation
  | 0 => ⟨administrator, .evaluateResource inquiry⟩
  | 1 => ⟨administrator, .getResourceEvaluation id⟩

theorem observers_evaluate_or_read (id : String) (i : Fin 2) :
    (∃ q, (observers id i).operation = .evaluateResource q) ∨
    (∃ id', (observers id i).operation = .getResourceEvaluation id') ∨
    ∃ q, (observers id i).operation = .listResourceEvaluations q :=
  match i with
  | 0 => .inl ⟨_, rfl⟩
  | 1 => .inr (.inl ⟨_, rfl⟩)

/-- The second call reads the record that the first has made. -/
theorem exists_observed : ∃ (steps : List Step) (s : State) (r : EvaluationRecord)
    (pool : Pool (observers r.resourceEvaluation.id)) (c : Course (Fin 2)),
    Run lenient .initial steps s ∧ Concurrently lenient (observers r.resourceEvaluation.id) s pool c ∧
    pool 0 = .done (.ok r) ∧ pool 1 = .done (.ok r) := by
  obtain ⟨steps, s, r, t, hrun, -, he⟩ := exists_evaluated
  obtain ⟨h, hs⟩ := hrun.keeps State.keeps_initial
  obtain ⟨h', ht, hr⟩ := mem_records_of_evaluateResource hs he
  let pool₀ : Pool (observers r.resourceEvaluation.id) := fun i =>
    (observers r.resourceEvaluation.id i).program lenient
  obtain ⟨c₁, hc₁, hproceeds₁, -⟩ := exists_proceeds_done pool₀ 0 (c := .start s) rfl he
  let pool₁ : Pool (observers r.resourceEvaluation.id) := Function.update pool₀ 0 (.done (.ok r))
  have hread := ends_administrator (o := .getResourceEvaluation r.resourceEvaluation.id)
    ((EvaluationRecord.ends_get ht hr).2 ⟨rfl, rfl⟩)
  obtain ⟨c₂, -, hproceeds₂, -⟩ := exists_proceeds_done pool₁ 1 (c := c₁) rfl (hc₁ ▸ hread)
  exact ⟨steps, s, r, _, c₂, hrun, hproceeds₁.append hproceeds₂, rfl, rfl⟩

end Service.First

namespace EvaluationRecord

/-- What was saved while a record was made and read are the documents of this record. -/
theorem overlapping_evaluations_first : ∃ (steps : List Step) (s : State) (r : EvaluationRecord)
    (pool : Pool (First.observers r.resourceEvaluation.id)) (c : Course (Fin 2)),
    Run lenient .initial steps s ∧
    Concurrently lenient (First.observers r.resourceEvaluation.id) s pool c ∧
    pool 1 = .done (.ok r) ∧ r.resourceEvaluation.pass = r.policyEvaluations.all PolicyEvaluation.pass ∧
    c.state.memory.documents Shelf.evaluations.index =
      s.memory.documents Shelf.evaluations.index ++ r.documents := by
  obtain ⟨steps, s, r, pool, c, hrun, hconcurrently, hmade, hread⟩ := First.exists_observed
  obtain ⟨⟨saved, hdocuments, hown⟩, hreads⟩ :=
    overlapping_evaluations hrun (First.observers_evaluate_or_read _) hconcurrently
  obtain ⟨-, hpass, -⟩ := hreads 1 r hread r (List.mem_singleton_self r)
  have hfirst : pool.made 0 = [r] := by
    rw [Pool.made, hmade]
    rfl
  have hsecond : pool.made 1 = [] := by
    rw [Pool.made, hread]
    rfl
  -- the second call has saved nothing, so that all is of the first
  have hall : saved.filter (fun x => x.1 = 0) = saved := by
    refine List.filter_eq_self.2 fun x hx => ?_
    have hnot := List.filter_eq_nil_iff.1 (List.map_eq_nil_iff.1 ((hown 1).trans hsecond)) x hx
    simp only [decide_eq_true_eq] at hnot ⊢
    omega
  have hsaved : saved.map Prod.snd = [r] := by
    rw [← hfirst, ← hown 0, hall]
  rw [hsaved, List.flatMap_singleton] at hdocuments
  exact ⟨steps, s, r, pool, c, hrun, hconcurrently, hread, hpass, hdocuments⟩

end EvaluationRecord
end Gatehouse
