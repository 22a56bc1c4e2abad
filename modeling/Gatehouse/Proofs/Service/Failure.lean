import Gatehouse.Proofs.Service.Progress

/-!
# Calls that leave no trace

A call that fails changes nothing in the store, and neither does a call that only reads.  But it has
asked, and it may have been given ids that are now lost.  Does anyone notice?  A later call can only
see what the store answers and which ids it is given.

1. **Agreement** (`State.Agrees`).  Two states have the same store, and what was given in the second one
   was given in the first one as well, or is lost.
2. **One program** (`runs_of_agrees`).  Whatever is answered in the first state may be answered in the
   second one, as long as no id is given that is lost.  The induction is on the program, one request at
   a time.
3. **Whole runs** (`Run.of_agrees`) are matched call by call, with the same outcomes.
-/

namespace Gatehouse.Service

open Store

/-! ## Agreement -/

/-- The store is the same, and so are the ids that were given, but for those that are lost. -/
structure State.Agrees (lost : List String) (s t : State) : Prop where
  memory : t.memory = s.memory
  given : ∀ id ∈ t.given, id ∈ s.given ∨ id ∈ lost

section Agreement

variable {svc : Service} {lost : List String} {s t u : State}

/-- The same reply leads to states that agree again. -/
theorem State.Agrees.after (h : State.Agrees lost s t) (q : Request) (reply : q.Reply) :
    State.Agrees lost (s.after q reply) (t.after q reply) where
  memory := by
    cases q with
    | store c => rw [State.after_memory_store, State.after_memory_store, h.memory]
    | _ => exact h.memory
  given := by
    cases q with
    | freshId =>
      rw [State.given_after_freshId, State.given_after_freshId]
      intro id hid
      rcases List.mem_append.1 hid with hid | hid
      · exact (h.given id hid).imp_left (List.mem_append_left _)
      · exact .inl (List.mem_append_right _ hid)
    | _ =>
      rw [State.given_after_of_ne (by simp), State.given_after_of_ne (by simp)]
      exact h.given

/-- A reply that may be given in the one state may be given in the other, unless it is a lost id. -/
theorem State.Agrees.allows (h : State.Agrees lost s t) {q : Request} {reply : q.Reply}
    (hq : s.allows q reply) (hlost : ∀ id ∈ (s.after q reply).given, id ∈ lost → id ∈ s.given) :
    t.allows q reply := by
  cases q with
  | store c =>
    have hreply : reply = (Memory.perform c s.memory).1 := hq
    show reply = (Memory.perform c t.memory).1
    rw [h.memory, hreply]
  | freshId =>
    refine ⟨hq.1, fun hin => hq.2 ?_⟩
    rcases h.given reply hin with hgiven | hreply
    · exact hgiven
    · exact hlost reply (State.mem_given_freshId reply) hreply
  | _ => exact hq

/-- **What a program may come to in one state it may come to in a state that agrees.** -/
theorem runs_of_agrees {α : Type} {p : Program effects α} {a : α} (h : State.Agrees lost s t)
    (hrun : p.Runs surroundings s a u) (hlost : ∀ id ∈ u.given, id ∈ lost → id ∈ s.given) :
    ∃ v, p.Runs surroundings t a v ∧ State.Agrees lost u v := by
  induction p generalizing s t with
  | done a =>
    obtain ⟨rfl, rfl⟩ := Program.runs_done.1 hrun
    exact ⟨t, Program.runs_done.2 ⟨rfl, rfl⟩, h⟩
  | ask q next ih =>
    obtain ⟨reply, hreply, hrest⟩ := Program.runs_ask.1 hrun
    -- what is given up to the end is not lost, so neither is what is given by this reply
    have hnow : ∀ id ∈ (s.after q reply).given, id ∈ lost → id ∈ s.given := fun id hid =>
      hlost id (State.given_subset hrest.log_isPrefix hid)
    have hlater : ∀ id ∈ u.given, id ∈ lost → id ∈ (s.after q reply).given := fun id hid hin =>
      State.given_subset (List.prefix_append _ _) (hlost id hid hin)
    obtain ⟨v, hv, hagrees⟩ := ih reply (h.after q reply) hrest hlater
    exact ⟨v, Program.runs_ask.2 ⟨reply, h.allows hreply hnow, hv⟩, hagrees⟩

/-! ## Whole runs -/

/-- What is seen of a call from outside: who asked for what, and what came back. -/
def Step.seen (x : Step) : Access.Caller × (o : Operation) × Except ServiceError o.Result :=
  (x.caller, ⟨x.operation, x.outcome⟩)

/-- **A run from one state is matched by a run from a state that agrees.** -/
theorem Run.of_agrees {steps : List Step} (hrun : Run svc s steps u) (h : State.Agrees lost s t)
    (hlost : ∀ id ∈ u.given, id ∈ lost → id ∈ s.given) :
    ∃ steps' v, Run svc t steps' v ∧ steps'.map Step.seen = steps.map Step.seen ∧
      v.memory = u.memory := by
  induction hrun generalizing t with
  | nil s => exact ⟨[], t, .nil t, rfl, h.memory⟩
  | @cons x steps u call rest ih =>
    have hnow : ∀ id ∈ x.after.given, id ∈ lost → id ∈ x.before.given := fun id hid =>
      hlost id (State.given_subset rest.log_isPrefix hid)
    have hlater : ∀ id ∈ u.given, id ∈ lost → id ∈ x.after.given := fun id hid hin =>
      State.given_subset call.log_isPrefix (hlost id hid hin)
    obtain ⟨m, hm, hagrees⟩ := runs_of_agrees h (ends_iff.1 call) hnow
    obtain ⟨steps', v, hrun', hseen, hmemory⟩ := ih hagrees hlater
    let y : Step := ⟨x.caller, x.operation, x.outcome, t, m⟩
    have hy : Run svc t (y :: steps') v := .cons (x := y) (ends_iff.2 hm) hrun'
    refine ⟨y :: steps', v, hy, ?_, hmemory⟩
    rw [List.map_cons, List.map_cons, hseen]
    rfl

end Agreement

/-! ## No trace -/

/-- **A call that fails leaves no trace, and neither does one that only reads.**  The store holds what it
held before, all of it.  Whatever later calls come to, they may come to without that call, with the same
outcomes.  And whatever they may come to without it they may come to after it, unless they are given an
id that this call was given and lost. -/
theorem failure_leaves_no_trace {svc : Service} {earlier : List Step} {s t : State}
    {caller : Access.Caller} {o : Operation} {result : Except ServiceError o.Result}
    (hrun : Run svc .initial earlier s)
    (he : Ends surroundings (svc.perform caller o) s result t)
    (hresult : (∃ e, result = .error e) ∨ o.onlyReads = true) :
    t.memory = s.memory ∧
    (∀ {later : List Step} {u : State}, Run svc t later u →
      ∃ later' v, Run svc s later' v ∧ later'.map Step.seen = later.map Step.seen ∧
        v.memory = u.memory) ∧
    ∀ {later : List Step} {u : State}, Run svc s later u →
      (∀ id ∈ u.given, id ∈ t.given → id ∈ s.given) →
      ∃ later' v, Run svc t later' v ∧ later'.map Step.seen = later.map Step.seen ∧
        v.memory = u.memory := by
  obtain ⟨h, hs⟩ := hrun.keeps State.keeps_initial
  have hmemory : t.memory = s.memory := by
    rcases hresult with ⟨e, rfl⟩ | hreads
    · obtain ⟨h', -, -, hmemory⟩ := perform_ends hs he
      exact hmemory
    · rcases ends_perform.1 he with ⟨-, haction⟩ | ⟨-, -, rfl⟩
      · exact ((reads_action hreads).untouched haction).memory
      · rfl
  have hgiven : ∀ id ∈ s.given, id ∈ t.given ∨ id ∈ [] := fun id hid =>
    .inl (State.given_subset he.log_isPrefix hid)
  refine ⟨hmemory, fun hlater => ?_, fun hlater hlost => ?_⟩
  · exact hlater.of_agrees ⟨hmemory.symm, hgiven⟩ fun id _ hid => absurd hid List.not_mem_nil
  · exact hlater.of_agrees (State.Agrees.mk hmemory fun id hid => .inr hid) hlost

/-! ## An outage -/

namespace First

/-- The occurrence store cannot be reached. -/
def outage : Occurrence.ListError := .http none "unreachable"

/-- An evaluation during an outage fails. -/
theorem exists_outage (s : State) : ∃ t : State,
    Ends surroundings (lenient.perform administrator (.evaluateResource inquiry)) s
      (.error (.internal "error listing build occurrences" (.occurrences outage))) t ∧
    t = s.after (.listOccurrences (Resource.question (Resource.buildsOf inquiry.resourceUri)))
      (.error outage) := by
  have hknown : (Resource.ResourceUri.ofText? inquiry.resourceUri).isSome = true := by decide
  have hresolve : Ends surroundings (Resource.resolveKnown inquiry.resourceUri) s
      (.error (.internal "error listing build occurrences" (.occurrences outage))) _ :=
    ends_bind_error.2 (.inr ⟨(), s, ends_ensure_ok.2 ⟨hknown, rfl⟩,
      ends_bind_error.2 (.inr ⟨(), s, ends_ensure_ok.2 ⟨by decide, rfl⟩,
        ends_bind_error.2 (.inl (ends_listOccurrences.2 ⟨.error outage, rfl, rfl⟩))⟩)⟩)
  have he : Ends surroundings (EvaluationRecord.create inquiry) s
      (.error (.internal "error listing build occurrences" (.occurrences outage))) _ :=
    ends_bind_error.2 (.inr ⟨(), s, ends_ensure_ok.2 ⟨by decide, rfl⟩,
      ends_bind_error.2 (.inr ⟨(), s, ends_ensure_ok.2 ⟨by decide, rfl⟩,
        ends_bind_error.2 (.inl hresolve)⟩)⟩)
  exact ⟨_, ends_administrator (o := .evaluateResource inquiry) he, rfl⟩

end First

/-- An evaluation that failed during an outage, and then succeeds: it might as well have succeeded at
once. -/
theorem failure_leaves_no_trace_first : ∃ (steps : List Step) (s t : State) (e : ServiceError),
    Run lenient .initial steps s ∧
    Ends surroundings (lenient.perform administrator (.evaluateResource First.inquiry)) s (.error e) t ∧
    t.memory = s.memory ∧
    ∃ (x : Step) (u : State) (later' : List Step) (v : State), Run lenient t [x] u ∧
      Run lenient s later' v ∧ later'.map Step.seen = [x.seen] ∧ v.memory = u.memory := by
  obtain ⟨steps, s, hrun, hs, hgiven, -⟩ := First.exists_assigned
  obtain ⟨t, he, hasked⟩ := First.exists_outage s
  obtain ⟨hmemory, hmatched, -⟩ := failure_leaves_no_trace hrun he (.inl ⟨_, rfl⟩)
  have ht := hs.of_memory_eq he hmemory
  have hids : ∀ i ∈ First.recordIds, Text.IsUuid i ∧ i ∉ t.given := by
    rw [hasked, State.given_after_of_ne (by simp), hgiven]
    decide
  obtain ⟨r, u, hcreate⟩ := EvaluationRecord.create_succeeds First.time ht First.evaluable rfl hids
    (by decide) First.time_isKept
  let x : Step := ⟨administrator, .evaluateResource First.inquiry, .ok r, t, u⟩
  have hlater : Run lenient t [x] u :=
    .cons (x := x) (ends_administrator (o := .evaluateResource First.inquiry) hcreate) (.nil u)
  obtain ⟨later', v, hrun', hseen, hsame⟩ := hmatched hlater
  exact ⟨steps, s, t, _, hrun, he, hmemory, x, u, later', v, hlater, hrun', hseen, hsame⟩

end Gatehouse.Service
