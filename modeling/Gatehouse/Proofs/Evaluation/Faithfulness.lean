import Gatehouse.Proofs.Service.Progress

/-!
# What a record says is what was answered

A caller who gets a record of an evaluation gets what the rule engine said: for every assignment of the
group, in their order, of the version that is assigned, on the occurrences that were found.  Nothing is
left out or made up on the way, whatever the occurrence store and the rule engine answer, and a record
is written in one write or not at all.
-/

namespace Gatehouse

open Service Store RuleEngine

/-- The questions for an assignment write nothing. -/
theorem Assessment.isWrite_exchanges (input : Json) (x : Assessment) :
    ∀ y ∈ x.exchanges input, y.request.isWrite = false := by
  intro y hy
  simp only [exchanges, List.mem_cons, List.not_mem_nil, or_false] at hy
  rcases hy with rfl | rfl | rfl | rfl <;> rfl

/-- The questions of an evaluation write nothing before its end. -/
theorem Trail.isWrite_exchanges (q : ResourceInquiry) (x : Trail) :
    ∀ y ∈ x.exchanges q, y.request.isWrite = false := by
  intro y hy
  rcases List.mem_append.1 hy with hy | hy
  · simp only [List.mem_cons, List.not_mem_nil, or_false] at hy
    rcases hy with rfl | rfl | rfl | rfl | rfl | rfl <;> rfl
  · obtain ⟨a, -, hy⟩ := List.mem_flatMap.1 hy
    exact a.isWrite_exchanges _ y hy

namespace EvaluationRecord

/-- **A record says what was answered, and is written whole or not at all.**  The trail `x` is what the
occurrence store and the rule engine answered in this call; the log has the questions and answers of
the trail, and after them the one write.  The order is that of the times of the assignments, the latest
first, if the clock has shown years of four digits so far; RFC 3339 writes no others. -/
theorem evaluateResource_faithful {svc : Service} {earlier : List Step} {s t : State}
    {caller : Access.Caller} {q : ResourceInquiry} {result : Except ServiceError EvaluationRecord}
    (hrun : Run svc .initial earlier s)
    (he : Ends surroundings (svc.perform caller (.evaluateResource q)) s result t) :
    (∀ e, result = .error e → t.memory = s.memory ∧
      ∃ calls, t.log = s.log ++ calls ∧ ∀ y ∈ calls, y.request.isWrite = false) ∧
    ∀ r, result = .ok r → ∃ x : Trail,
      t.log = s.log ++ x.exchanges q ++ [⟨.store (.bulk Shelf.evaluations.index
        (r.documents.map Write.create)), .ok ()⟩] ∧
      (∀ y ∈ x.exchanges q, y.request.isWrite = false) ∧
      x.assignments.Perm (s.memory.assignments.filter fun a => a.policyGroup = q.policyGroup) ∧
      ((∀ time ∈ s.times, time.IsCivil) → x.assignments =
        (s.memory.assignments.filter fun a => a.policyGroup = q.policyGroup).mergeSort
          PolicyAssignment.isNewer) ∧
      (∀ a ∈ x.assessments, a.version.id = a.assignment.policyVersionId ∧
        s.memory.version? a.assignment.policyVersionId = some a.version) ∧
      r.policyEvaluations = x.assessments.map
        (Assessment.child r.resourceEvaluation.id r.resourceEvaluation.created) ∧
      r.resourceEvaluation.policyGroup = q.policyGroup ∧
      r.resourceEvaluation.pass = r.policyEvaluations.all PolicyEvaluation.pass := by
  obtain ⟨h, hs⟩ := hrun.keeps State.keeps_initial
  -- what the scope of the group covers are the assignments that name the group
  have hcovers : h.assignments.filter (AssignmentScope.group q.policyGroup).covers =
      s.memory.assignments.filter fun a => a.policyGroup = q.policyGroup := by
    rw [hs.assignments_eq]
    refine List.filter_congr fun a _ => ?_
    exact decide_eq_decide.2 eq_comm
  rcases ends_perform.1 he with ⟨-, haction⟩ | ⟨-, rfl, rfl⟩
  · rcases create_ends hs haction with ⟨e, rfl, hread⟩ | ⟨x, m, rfl, hread, hx, -, hlog⟩
    · exact ⟨fun _ _ => ⟨hread.memory, hread.log⟩, fun r hr => nomatch hr⟩
    · refine ⟨fun e herror => (nomatch herror), fun r hr => ?_⟩
      obtain rfl := Except.ok.inj hr
      refine ⟨x, hx.log ▸ hlog, x.isWrite_exchanges q, hcovers ▸ hx.covered, fun hcivil => ?_,
        fun a ha => ?_, rfl, rfl, rfl⟩
      · have hcreated : ∀ a ∈ h.assignments, a.created.IsCivil := fun a ha =>
          hcivil _ (hs.sound.assignmentTimes a ha).1
        exact hcovers ▸ hx.newestFirst hcreated
      · have hversion := hx.versions a ha
        exact ⟨(hs.holds.version?_eq_some.1 hversion).2, hs.version?_eq.trans hversion⟩
  · -- a caller who is denied leaves nothing behind
    exact ⟨fun _ _ => ⟨rfl, [], (List.append_nil _).symm, fun _ hy => absurd hy List.not_mem_nil⟩,
      fun r hr => nomatch hr⟩

/-- The first record that was ever made says what was answered, in the order of the assignments. -/
theorem evaluateResource_faithful_first :
    ∃ (steps : List Step) (s : State) (r : EvaluationRecord) (t : State), Run lenient .initial steps s ∧
      Ends surroundings (lenient.perform administrator (.evaluateResource First.inquiry)) s (.ok r) t ∧
      r.resourceEvaluation.policyGroup = "production" ∧ ∃ x : Trail,
        t.log = s.log ++ x.exchanges First.inquiry ++ [⟨.store (.bulk Shelf.evaluations.index
          (r.documents.map Write.create)), .ok ()⟩] ∧
        x.assignments = (s.memory.assignments.filter fun a => a.policyGroup = "production").mergeSort
          PolicyAssignment.isNewer ∧
        r.policyEvaluations = x.assessments.map
          (Assessment.child r.resourceEvaluation.id r.resourceEvaluation.created) := by
  obtain ⟨steps, s, r, t, hrun, htimes, he⟩ := First.exists_evaluated
  have hcivil : ∀ time ∈ s.times, time.IsCivil := fun time htime => by
    rw [htimes time htime]
    exact First.time_isCivil
  obtain ⟨-, hok⟩ := evaluateResource_faithful hrun he
  obtain ⟨x, hlog, -, -, hsorted, -, hchildren, hgroup, -⟩ := hok r rfl
  exact ⟨steps, s, r, t, hrun, he, hgroup, x, hlog, hsorted hcivil, hchildren⟩

end EvaluationRecord
end Gatehouse
