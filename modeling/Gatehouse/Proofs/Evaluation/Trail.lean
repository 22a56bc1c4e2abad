import Gatehouse.Proofs.Assignment.Search

/-!
# The trail of an evaluation

An evaluation of a resource asks many questions: for builds, for occurrences, for the group, for its
assignments, and then for each assignment for its version, for a loaded policy and for a verdict.  If
it succeeds, then every answer is known from the record and the log, and the log has nothing else.

1. **Assessments.**  What was answered for one assignment, the exchanges in which it was answered, and
   the child that is made of it.
2. **Trails.**  What was answered before, and the assessments.  A trail determines the exchanges of
   the whole evaluation and its record.
3. **The crux** is that `create` is `prepare` and then `save` (`create_eq`).  The first only reads, so a
   failure leaves no trace; the second cannot fail, since all ids in it are fresh.
-/

namespace Gatehouse

open Service Store RuleEngine

/-- What was answered for one assignment. -/
structure Assessment where
  assignment : PolicyAssignment
  version : PolicyVersion
  evaluation : Evaluation
  id : String

namespace Assessment

/-- The questions for one assignment and their answers. -/
def exchanges (input : Json) (x : Assessment) : List (Exchange effects) :=
  [⟨.store (.get Shelf.policies.index x.assignment.policyVersionId),
      .ok (some (Policy.versionDocument x.version))⟩,
   ⟨.load x.version.id x.version.regoContent, .ok ()⟩,
   ⟨.evaluate x.version.regoContent input, .ok x.evaluation⟩,
   ⟨.freshId, x.id⟩]

/-- The child of a record that comes of it. -/
def child (recordId : String) (time : Instant) (x : Assessment) : PolicyEvaluation where
  id := x.id
  resourceEvaluationId := recordId
  policyVersionId := x.version.id
  pass := x.evaluation.pass
  violations := x.evaluation.result.violations
  created := time

end Assessment

/-- The assessments are those of the assignments, one after the other, and nothing else was asked. -/
structure Assessed (s t : State) (h : Holdings) (input : Json) (as : List PolicyAssignment)
    (xs : List Assessment) : Prop where
  assignments : xs.map Assessment.assignment = as
  versions : ∀ x ∈ xs, h.version? x.assignment.policyVersionId = some x.version
  log : t.log = s.log ++ xs.flatMap (Assessment.exchanges input)
  fresh : ∀ x ∈ xs, x.id ∉ s.given
  given : ∀ x ∈ xs, x.id ∈ t.given
  distinct : (xs.map Assessment.id).Nodup

namespace Assessed

variable {s m t : State} {h : Holdings} {input : Json}

theorem nil (s : State) (h : Holdings) (input : Json) : Assessed s s h input [] [] where
  assignments := rfl
  versions _ hx := absurd hx List.not_mem_nil
  log := (List.append_nil _).symm
  fresh _ hx := absurd hx List.not_mem_nil
  given _ hx := absurd hx List.not_mem_nil
  distinct := List.nodup_nil

theorem isPrefix {as : List PolicyAssignment} {xs : List Assessment}
    (hxs : Assessed s t h input as xs) : s.log <+: t.log := ⟨_, hxs.log.symm⟩

/-- An assessment and those that come after it. -/
theorem cons {a : PolicyAssignment} {as : List PolicyAssignment} {x : Assessment}
    {xs : List Assessment} (hx : Assessed s m h input [a] [x]) (hxs : Assessed m t h input as xs) :
    Assessed s t h input (a :: as) (x :: xs) where
  assignments := by
    have ha : x.assignment = a := List.head_eq_of_cons_eq hx.assignments
    rw [List.map_cons, ha, hxs.assignments]
  versions y hy := by
    rcases List.mem_cons.1 hy with rfl | hy
    · exact hx.versions y (List.mem_singleton_self y)
    · exact hxs.versions y hy
  log := by
    rw [hxs.log, hx.log, List.flatMap_singleton, List.flatMap_cons, List.append_assoc]
  fresh y hy := by
    rcases List.mem_cons.1 hy with rfl | hy
    · exact hx.fresh y (List.mem_singleton_self y)
    · exact fun hgiven => hxs.fresh y hy (State.given_subset hx.isPrefix hgiven)
  given y hy := by
    rcases List.mem_cons.1 hy with rfl | hy
    · exact State.given_subset hxs.isPrefix (hx.given y (List.mem_singleton_self y))
    · exact hxs.given y hy
  distinct := by
    refine List.nodup_cons.2 ⟨fun hmem => ?_, hxs.distinct⟩
    -- the id of the first was given before the others were asked for
    obtain ⟨y, hy, hid⟩ := List.mem_map.1 hmem
    exact hxs.fresh y hy (hid ▸ hx.given x (List.mem_singleton_self x))

end Assessed

namespace EvaluationRecord

section Assessing

variable {s t : State} {h : Holdings} {recordId : String} {time : Instant} {input : Json}

theorem evaluateAssigned_ok (hs : s.Keeps h) {a : PolicyAssignment} {c : PolicyEvaluation}
    (he : Ends surroundings (evaluateAssigned recordId time input a) s (.ok c) t) :
    ∃ x : Assessment, Assessed s t h input [a] [x] ∧ c = x.child recordId time := by
  obtain ⟨found, m, hfind, he⟩ := ends_bind_ok.1 he
  obtain ⟨hfound, rfl⟩ := (ends_findVersion? hs).1 hfind
  obtain rfl := Except.ok.inj hfound
  cases hv : h.version? a.policyVersionId with
  | none =>
    -- an assignment of a version that is not there fails
    rw [hv] at he
    exact absurd (ends_throw.1 he).1 (by simp)
  | some v =>
    rw [hv] at he
    have hgot : s.memory.get? Shelf.policies.index a.policyVersionId =
        some (Policy.versionDocument v) := by
      obtain ⟨hmem, hid⟩ := hs.holds.version?_eq_some.1 hv
      have hfiled := (hs.holds.filed?_eq_some a.policyVersionId (.version v)).2 ⟨hmem, hid⟩
      rw [hs.get?_policies, hfiled]
      rfl
    obtain ⟨evaluation, m, hanswered, he⟩ := ends_bind_ok.1 he
    obtain ⟨reply, hreply, rfl⟩ := ends_evaluate.1 (ends_load_bind_ok.1 hanswered)
    cases reply with
    | error e => contradiction
    | ok evaluation' =>
      obtain rfl := Except.ok.inj hreply
      obtain ⟨id, hid, he⟩ := ends_freshId_bind.1 he
      obtain ⟨hc, rfl⟩ := ends_pure.1 he
      refine ⟨⟨a, v, evaluation, id⟩, ?_, Except.ok.inj hc⟩
      have hfresh : id ∉ s.given := fun hgiven =>
        hid.2 (State.given_subset (hfind.log_isPrefix.trans hanswered.log_isPrefix) hgiven)
      refine ⟨rfl, by simpa using hv, ?_, by simpa using hfresh, ?_, by simp⟩
      · simp only [State.after_log, State.got, hgot, Assessment.exchanges, List.flatMap_cons,
          List.flatMap_nil, List.append_assoc, List.append_nil, List.cons_append, List.nil_append]
      · simp

/-- A loop over assignments that succeeds has assessed each of them, in order. -/
theorem mapM_evaluateAssigned_ok (hs : s.Keeps h) {as : List PolicyAssignment}
    {cs : List PolicyEvaluation}
    (he : Ends surroundings (as.mapM (evaluateAssigned recordId time input)) s (.ok cs) t) :
    ∃ xs, Assessed s t h input as xs ∧ cs = xs.map (Assessment.child recordId time) := by
  induction as generalizing s cs with
  | nil =>
    obtain ⟨hcs, rfl⟩ := ends_pure.1 he
    obtain rfl := Except.ok.inj hcs
    exact ⟨[], Assessed.nil _ h input, rfl⟩
  | cons a as ih =>
    rw [List.mapM_cons] at he
    obtain ⟨c, m, hc, he⟩ := ends_bind_ok.1 he
    obtain ⟨cs', u, hcs', he⟩ := ends_bind_ok.1 he
    obtain ⟨hcs, rfl⟩ := ends_pure.1 he
    obtain ⟨x, hx, rfl⟩ := evaluateAssigned_ok hs hc
    obtain ⟨xs, hxs, rfl⟩ := ih ((reads_evaluateAssigned ..).keeps hc hs) hcs'
    exact ⟨x :: xs, hx.cons hxs, Except.ok.inj hcs⟩

end Assessing
end EvaluationRecord

/-! ## Trails -/

/-- What was answered in the course of an evaluation. -/
structure Trail where
  builds : Occurrence.ListResponse
  related : Occurrence.ListResponse
  group : PolicyGroup
  time : Instant
  id : String
  assessments : List Assessment

namespace Trail

/-- What the policies saw. -/
def input (x : Trail) : Json :=
  .object [("occurrences", .array (x.related.occurrences.map Occurrence.toJson))]

/-- The assignments that were found. -/
def assignments (x : Trail) : List PolicyAssignment := x.assessments.map Assessment.assignment

/-- The questions of an evaluation and their answers, without the final write. -/
def exchanges (q : ResourceInquiry) (x : Trail) : List (Exchange effects) :=
  [⟨.listOccurrences (Resource.question (Resource.buildsOf q.resourceUri)), .ok x.builds⟩,
   ⟨.listOccurrences (Resource.question
      (Resource.onAnyOf (Resource.relatives q.resourceUri x.builds.occurrences))), .ok x.related⟩,
   ⟨.store (.get Shelf.policyGroups.index q.policyGroup), .ok (some x.group.document)⟩,
   ⟨.store (.search Shelf.policyAssignments.index
      { query := (AssignmentScope.group q.policyGroup).query,
        sort? := some PolicyAssignment.newestFirst }),
      .ok ⟨x.assignments.map PolicyAssignment.document, x.assignments.length, ""⟩⟩,
   ⟨.now, x.time⟩,
   ⟨.freshId, x.id⟩] ++
  x.assessments.flatMap (Assessment.exchanges x.input)

/-- The record that comes of it. -/
def record (q : ResourceInquiry) (x : Trail) : EvaluationRecord where
  resourceEvaluation :=
    { id := x.id
      resourceVersion :=
        ⟨q.resourceUri, Resource.publishedNames q.resourceUri x.builds.occurrences, none⟩
      policyGroup := q.policyGroup
      pass := (x.assessments.map (Assessment.child x.id x.time)).all PolicyEvaluation.pass
      source := q.source
      created := x.time }
  policyEvaluations := x.assessments.map (Assessment.child x.id x.time)

/-- A trail leads from one state to another. -/
structure Leads (x : Trail) (q : ResourceInquiry) (s t : State) (h : Holdings) : Prop where
  group : h.group? q.policyGroup = some x.group
  live : x.group.deleted = false
  covered : x.assignments.Perm (h.assignments.filter (AssignmentScope.group q.policyGroup).covers)
  newestFirst : (∀ a ∈ h.assignments, a.created.IsCivil) → x.assignments =
    (h.assignments.filter (AssignmentScope.group q.policyGroup).covers).mergeSort
      PolicyAssignment.isNewer
  versions : ∀ a ∈ x.assessments, h.version? a.assignment.policyVersionId = some a.version
  log : t.log = s.log ++ x.exchanges q
  fresh : x.id ∉ s.given ∧ ∀ a ∈ x.assessments, a.id ∉ s.given
  distinct : (x.id :: x.assessments.map Assessment.id).Nodup
  given : x.id ∈ t.given ∧ ∀ a ∈ x.assessments, a.id ∈ t.given
  shown : x.time ∈ t.times

end Trail

namespace EvaluationRecord

/-- Everything that an evaluation does before it writes. -/
def prepare (q : ResourceInquiry) : Action EvaluationRecord := do
  ensure (!q.resourceUri.isEmpty) (.required "resource uri")
  ensure (!q.policyGroup.isEmpty) (.required "policy group")
  let resolved ← Resource.resolveKnown q.resourceUri
  let group ← PolicyGroup.getActive q.policyGroup
  let assignments ← (AssignmentScope.group group.name).assignments
  ensure (!assignments.isEmpty) (.nothingAssigned group.name)
  let time ← now
  let id ← freshId
  let children ← assignments.mapM (evaluateAssigned id time (input resolved))
  return ⟨{ id := id, resourceVersion := resolved.resourceVersion, policyGroup := group.name,
            pass := children.all PolicyEvaluation.pass, source := q.source, created := time }, children⟩

/-- Write a whole record. -/
def save (r : EvaluationRecord) : Action Unit :=
  call "error saving evaluation results" (.bulk Shelf.evaluations.index (r.documents.map Write.create))

theorem call_bulk (parent : ResourceEvaluation) (children : List PolicyEvaluation) :
    call "error saving evaluation results" (.bulk Shelf.evaluations.index
      (.create (document parent) :: children.map fun c => .create (childDocument c))) =
    save ⟨parent, children⟩ := by
  rw [save, documents, List.map_cons, List.map_map]
  rfl

/-- **An evaluation is a preparation that writes nothing, and one write.** -/
theorem create_eq (q : ResourceInquiry) :
    create q = (do let r ← prepare q; save r; return r) := by
  simp only [create, prepare, call_bulk, bind_assoc, pure_bind]

theorem reads_prepare (q : ResourceInquiry) : Reads (prepare q) :=
  (reads_ensure _ _).bind fun _ => (reads_ensure _ _).bind fun _ =>
  (Resource.reads_resolveKnown _).bind fun _ => (PolicyGroup.reads_getActive _).bind fun _ =>
  (AssignmentScope.reads_assignments _).bind fun _ => (reads_ensure _ _).bind fun _ =>
  reads_now.bind fun _ => reads_freshId.bind fun _ =>
  (Reads.mapM (reads_evaluateAssigned _ _ _) _).bind fun _ => reads_pure _

section Creating

variable {s t : State} {h : Holdings} {q : ResourceInquiry} {r : EvaluationRecord}

/-- A resource is resolved by the two questions, and the answers say all that is found out. -/
theorem resolveKnown_ok {uri : String} {resolved : Resource.Resolved}
    (he : Ends surroundings (Resource.resolveKnown uri) s (.ok resolved) t) :
    ∃ builds related : Occurrence.ListResponse,
      resolved = ⟨⟨uri, Resource.publishedNames uri builds.occurrences, none⟩, related.occurrences,
        related.nextPageToken⟩ ∧
      t.log = s.log ++
        [⟨.listOccurrences (Resource.question (Resource.buildsOf uri)), .ok builds⟩,
         ⟨.listOccurrences (Resource.question
            (Resource.onAnyOf (Resource.relatives uri builds.occurrences))), .ok related⟩] := by
  obtain ⟨-, he⟩ := ends_ensure_bind_ok.1 he
  obtain ⟨-, he⟩ := ends_ensure_bind_ok.1 he
  obtain ⟨builds, he⟩ := ends_listOccurrences_bind_ok.1 he
  obtain ⟨related, he⟩ := ends_listOccurrences_bind_ok.1 he
  obtain ⟨hresolved, rfl⟩ := ends_pure.1 he
  refine ⟨builds, related, Except.ok.inj hresolved, ?_⟩
  rw [State.after_log, State.after_log, List.append_assoc]
  rfl

/-- **A preparation that succeeds has left a trail, and nothing but the trail.** -/
theorem prepare_ok (hs : s.Keeps h) (he : Ends surroundings (prepare q) s (.ok r) t) :
    ∃ x : Trail, x.Leads q s t h ∧ r = x.record q := by
  obtain ⟨-, he⟩ := ends_ensure_bind_ok.1 he
  obtain ⟨-, he⟩ := ends_ensure_bind_ok.1 he
  -- one question after the other; each leaves the holdings as they are and is one more in the log
  obtain ⟨resolved, m₁, hresolve, he⟩ := ends_bind_ok.1 he
  have hs₁ := (Resource.reads_resolveKnown _).keeps hresolve hs
  obtain ⟨builds, related, rfl, hlog₁⟩ := resolveKnown_ok hresolve
  obtain ⟨group, m₂, hgroup, he⟩ := ends_bind_ok.1 he
  have hs₂ := (PolicyGroup.reads_getActive _).keeps hgroup hs₁
  obtain ⟨-, hfound, hlive, hm₂⟩ := (ends_getActive_ok hs₁).1 hgroup
  have hlog₂ : m₂.log = m₁.log ++
      [⟨.store (.get Shelf.policyGroups.index q.policyGroup), .ok (some group.document)⟩] := by
    rw [hm₂, State.got, State.after_log, hs₁.get?_groups, hfound]
    rfl
  obtain ⟨-, hname⟩ := Holdings.group?_eq_some_imp hfound
  rw [hname] at he
  obtain ⟨as, m₃, hsearch, he⟩ := ends_bind_ok.1 he
  have hs₃ := (AssignmentScope.reads_assignments _).keeps hsearch hs₂
  obtain ⟨_, has, hperm, hsorted, hm₃⟩ := ends_assignments hs₂ hsearch
  obtain rfl := Except.ok.inj has
  obtain ⟨-, he⟩ := ends_ensure_bind_ok.1 he
  obtain ⟨time, hkept, he⟩ := ends_now_bind.1 he
  obtain ⟨id, hid, he⟩ := ends_freshId_bind.1 he
  obtain ⟨cs, u, hloop, he⟩ := ends_bind_ok.1 he
  obtain ⟨hr, rfl⟩ := ends_pure.1 he
  have hs₄ := (hs₃.after (q := .now) hkept rfl).after (q := .freshId) hid rfl
  obtain ⟨xs, hxs, rfl⟩ := mapM_evaluateAssigned_ok hs₄ hloop
  obtain ⟨rfl, hversions, hlog, hfresh, hgiven, hdistinct⟩ := hxs
  have hasked : s.log <+: (m₃.after .now time).log :=
    ((hresolve.log_isPrefix.trans hgroup.log_isPrefix).trans hsearch.log_isPrefix).trans
      (List.prefix_append _ _)
  have hbefore : s.log <+: ((m₃.after .now time).after .freshId id).log :=
    hasked.trans (List.prefix_append _ _)
  refine ⟨⟨builds, related, group, time, id, xs⟩, ?_, Except.ok.inj hr⟩
  exact {
    group := hfound
    live := hlive
    covered := hperm
    newestFirst := hsorted
    versions := hversions
    log := by
      simp only [hlog, State.after_log, hm₃, hlog₂, hlog₁, Trail.exchanges, List.append_assoc,
        List.cons_append, List.nil_append]
      rfl
    fresh := ⟨fun hin => hid.2 (State.given_subset hasked hin),
      fun x hx hin => hfresh x hx (State.given_subset hbefore hin)⟩
    distinct := by
      refine List.nodup_cons.2 ⟨fun hin => ?_, hdistinct⟩
      -- the id of the record was given before those of its children
      obtain ⟨x, hx, hxid⟩ := List.mem_map.1 hin
      exact hfresh x hx (hxid ▸ State.mem_given_freshId id)
    given := ⟨State.given_subset hloop.log_isPrefix (State.mem_given_freshId id), hgiven⟩
    shown := State.times_subset ((List.prefix_append _ _).trans hloop.log_isPrefix)
      (State.mem_times_now time) }

/-! ## The write -/

theorem record_isSound {x : Trail} (hx : x.Leads q s t h) : RecordIsSound t (x.record q) where
  id := hx.given.1
  time := hx.shown
  resource := rfl
  childId c hc := by
    obtain ⟨a, ha, rfl⟩ := List.mem_map.1 hc
    exact hx.given.2 a ha
  childTime c hc := by
    obtain ⟨a, ha, rfl⟩ := List.mem_map.1 hc
    exact hx.shown
  parent c hc := by
    obtain ⟨a, ha, rfl⟩ := List.mem_map.1 hc
    rfl
  pass := rfl

/-- The ids of the documents of records were given. -/
theorem document_id_mem_given (hs : s.Keeps h) :
    ∀ d ∈ h.documents .evaluations, d.id ∈ s.given := by
  intro d hd
  obtain ⟨r, hr, hd⟩ := List.mem_flatMap.1 hd
  have hsound := hs.sound.records r hr
  rcases List.mem_cons.1 hd with rfl | hd
  · exact hsound.id
  · obtain ⟨c, hc, rfl⟩ := List.mem_map.1 hd
    exact hsound.childId c hc

/-- **The write of a new record cannot fail.** -/
theorem save_ends {x : Trail} {m : State} (hs : s.Keeps h) (hx : x.Leads q s m h) (hm : m.memory = s.memory)
    {result : Except ServiceError Unit} (he : Ends surroundings (save (x.record q)) m result t) :
    result = .ok () ∧ Holds t.memory { h with records := h.records ++ [x.record q] } ∧
      t.log = m.log ++ [⟨.store (.bulk Shelf.evaluations.index
        ((x.record q).documents.map Write.create)), .ok ()⟩] := by
  have hids : (x.record q).documents.map Document.id = x.id :: x.assessments.map Assessment.id := by
    simp only [documents, Trail.record, List.map_cons, List.map_map]
    rfl
  -- what is held has ids that were given before, and all ids of the record were given since
  have hcreate := hs.holds.changeAll?_create .evaluations (x.record q).documents
    (hids ▸ hx.distinct) (by
      intro d hd n hn heq
      have hgiven := document_id_mem_given hs d hd
      have hnew : n.id ∈ x.id :: x.assessments.map Assessment.id := hids ▸ List.mem_map_of_mem hn
      rcases List.mem_cons.1 hnew with hid | hid
      · exact hx.fresh.1 (hid ▸ heq ▸ hgiven)
      · obtain ⟨a, ha, haid⟩ := List.mem_map.1 hid
        exact hx.fresh.2 a ha (haid ▸ heq ▸ hgiven))
  have hbulk := hs.holds.perform_bulk { h with records := h.records ++ [x.record q] }
    (by rw [hcreate]; simp [Holdings.documents])
    (Holdings.documents_frame (.inr rfl) (.inr rfl) (.inr rfl) (.inl rfl))
  obtain ⟨hr, rfl⟩ := ends_call.1 he
  rw [hm, hbulk.1] at hr
  refine ⟨hr, ?_, ?_⟩
  · rw [State.after_memory_store, hm]
    exact hbulk.2
  · rw [State.after_log, hm, hbulk.1]

/-- **An evaluation leaves a trail and writes its record at the end of it, or writes nothing.** -/
theorem create_ends (hs : s.Keeps h) {result : Except ServiceError EvaluationRecord}
    (he : Ends surroundings (create q) s result t) :
    (∃ e, result = .error e ∧ s.Untouched t) ∨
      ∃ (x : Trail) (m : State), result = .ok (x.record q) ∧ s.Untouched m ∧ x.Leads q s m h ∧
        Holds t.memory { h with records := h.records ++ [x.record q] } ∧
        t.log = m.log ++ [⟨.store (.bulk Shelf.evaluations.index
          ((x.record q).documents.map Write.create)), .ok ()⟩] := by
  rw [create_eq] at he
  rcases ends_bind.1 he with ⟨r, m, hprepare, he⟩ | ⟨e, hprepare, rfl⟩
  · have hread := (reads_prepare q).untouched hprepare
    obtain ⟨x, hx, rfl⟩ := prepare_ok hs hprepare
    rcases ends_bind.1 he with ⟨_, u, hsave, he⟩ | ⟨e, hsave, -⟩
    · obtain ⟨-, hholds, hlog⟩ := save_ends hs hx hread.memory hsave
      obtain ⟨rfl, rfl⟩ := ends_pure.1 he
      exact .inr ⟨x, m, rfl, hread, hx, hholds, hlog⟩
    · obtain ⟨hfailed, -⟩ := save_ends hs hx hread.memory hsave
      contradiction
  · exact .inl ⟨e, rfl, (reads_prepare q).untouched hprepare⟩

end Creating
end EvaluationRecord
end Gatehouse
