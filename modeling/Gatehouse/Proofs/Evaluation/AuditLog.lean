import Gatehouse.Proofs.Service.Progress

/-!
# The audit log

Records of evaluations are written once.  No operation writes over them or deletes them, and a record is
read back exactly as it was answered when it was made, whatever was done in between.

1. **Families.**  Among the documents of all records, the search for a parent finds it alone, and the
   search for its children finds its children, in their order (`filter_parent`, `filter_children`).
2. **Reading back** (`ends_get`): a record that is held is answered, without failure.
3. **Appending** (`Run.records_prefix`): what is held later begins with what is held now.
-/

namespace Gatehouse

open Service Store

namespace EvaluationRecord

/-! ## Families -/

/-- The query for the parent of an id. -/
def parentQuery (id : String) : Query := .every [.hasRelation relation, .term ["id"] (.string id)]

theorem selects_parent (id : String) (e : ResourceEvaluation) :
    (parentQuery id).selects (document e) = (id = e.id : Bool) := by
  simp [parentQuery, Query.every, Query.selects, document, Document.relation?, Join.ofParent,
    ResourceEvaluation.toJson, Json.lookup?, Json.member?, Json.same]

theorem selects_child (id : String) (c : PolicyEvaluation) :
    (parentQuery id).selects (childDocument c) = false := by
  have hne : ¬ childRelation = relation := by decide
  simp [parentQuery, Query.every, Query.selects, childDocument, Document.relation?, Join.ofChild, hne]

theorem childrenOf_selects_parent (id : String) (e : ResourceEvaluation) :
    (Query.childrenOf id).selects (document e) = false := rfl

theorem childrenOf_selects_child (id : String) (c : PolicyEvaluation) :
    (Query.childrenOf id).selects (childDocument c) = (c.resourceEvaluationId = id : Bool) := by
  simp [Query.selects, childDocument, Document.parent?, Join.ofChild]

/-- The search for the parent of an id finds the parents of that id, and no child. -/
theorem filter_parent (id : String) (records : List EvaluationRecord) :
    (records.flatMap documents).filter (parentQuery id).selects =
      (records.filter fun r => r.resourceEvaluation.id = id).map fun r =>
        document r.resourceEvaluation := by
  -- record by record: the children never match, and the parent does if its id is the one
  induction records with
  | nil => rfl
  | cons r records ih =>
    have hchildren : (r.policyEvaluations.map childDocument).filter (parentQuery id).selects = [] := by
      rw [List.filter_eq_nil_iff]
      intro d hd
      obtain ⟨c, -, rfl⟩ := List.mem_map.1 hd
      simp [selects_child]
    rw [List.flatMap_cons, List.filter_append, ih, documents]
    by_cases hid : r.resourceEvaluation.id = id
    · rw [List.filter_cons_of_pos (by simp [selects_parent, hid]), hchildren,
        List.filter_cons_of_pos (by simpa using hid), List.map_cons, List.singleton_append]
    · rw [List.filter_cons_of_neg (by simpa [selects_parent] using Ne.symm hid), hchildren,
        List.filter_cons_of_neg (by simpa using hid), List.nil_append]

/-- The search for the children of an id finds those of the records of that id. -/
theorem filter_children (id : String) {records : List EvaluationRecord}
    (hparent : ∀ r ∈ records, ∀ c ∈ r.policyEvaluations,
      c.resourceEvaluationId = r.resourceEvaluation.id) :
    (records.flatMap documents).filter (Query.childrenOf id).selects =
      ((records.filter fun r => r.resourceEvaluation.id = id).flatMap policyEvaluations).map
        childDocument := by
  induction records with
  | nil => rfl
  | cons r records ih =>
    have hrest := ih fun x hx => hparent x (List.mem_cons_of_mem _ hx)
    have hown := hparent r List.mem_cons_self
    rw [List.flatMap_cons, List.filter_append, hrest, documents,
      List.filter_cons_of_neg (by simp [childrenOf_selects_parent])]
    -- the children of a record all name it, so they match together or not at all
    by_cases hid : r.resourceEvaluation.id = id
    · have hall : (r.policyEvaluations.map childDocument).filter (Query.childrenOf id).selects =
          r.policyEvaluations.map childDocument := by
        rw [List.filter_eq_self]
        intro d hd
        obtain ⟨c, hc, rfl⟩ := List.mem_map.1 hd
        rw [childrenOf_selects_child, decide_eq_true_eq]
        exact (hown c hc).trans hid
      rw [hall, List.filter_cons_of_pos (by simpa using hid), List.flatMap_cons, List.map_append]
    · have hnone : (r.policyEvaluations.map childDocument).filter (Query.childrenOf id).selects = [] := by
        rw [List.filter_eq_nil_iff]
        intro d hd
        obtain ⟨c, hc, rfl⟩ := List.mem_map.1 hd
        rw [childrenOf_selects_child, decide_eq_true_eq]
        exact fun heq => hid ((hown c hc).symm.trans heq)
      rw [hnone, List.filter_cons_of_neg (by simpa using hid), List.nil_append]

section Records

variable {s t : State} {h : Holdings} {r : EvaluationRecord}

/-- Two records of one id are one record. -/
theorem filter_id (hs : s.Keeps h) (hr : r ∈ h.records) :
    (h.records.filter fun x => x.resourceEvaluation.id = r.resourceEvaluation.id) = [r] := by
  have hids : (h.records.map fun x => x.resourceEvaluation.id).Nodup := by
    have hall := hs.holds.ordered.nodup_ids Shelf.evaluations.index
    rw [hs.holds.documents, Holdings.documents, List.map_flatMap] at hall
    -- the ids of the parents are some of the ids of all documents
    refine hall.sublist ?_
    induction h.records with
    | nil => exact .slnil
    | cons x xs ih => exact .cons_cons _ (ih.trans (List.sublist_append_right _ _))
  have hnodup : h.records.Nodup := List.Nodup.of_map _ hids
  -- without repetitions a list is what its members say
  refine List.perm_singleton.1 ?_
  rw [List.perm_ext_iff_of_nodup (hnodup.filter _) (List.nodup_singleton r)]
  intro x
  rw [List.mem_filter, List.mem_singleton, decide_eq_true_eq]
  constructor
  · rintro ⟨hx, hid⟩
    exact List.inj_on_of_nodup_map hids hx hr hid
  · rintro rfl
    exact ⟨hr, rfl⟩

/-- What a search for the children of a record finds are the documents of its own. -/
theorem filter_childrenOf (hs : s.Keeps h) (hr : r ∈ h.records) :
    (s.memory.documents Shelf.evaluations.index).filter
      (Query.childrenOf r.resourceEvaluation.id).selects = r.policyEvaluations.map childDocument := by
  rw [hs.documents_evaluations, filter_children _ fun x hx => (hs.sound.records x hx).parent,
    filter_id hs hr]
  simp

/-! ## Reading back -/

theorem read_parent_of_sound (hs : s.IsHonest) (hr : RecordIsSound s r) :
    ResourceEvaluation.ofJson? (document r.resourceEvaluation).source = some r.resourceEvaluation := by
  refine ResourceEvaluation.ofJson?_toJson ⟨fun time htime => ?_, hs.kept _ hr.time⟩
  rw [hr.resource] at htime
  contradiction

theorem read_child_of_sound (hs : s.IsHonest) (hr : RecordIsSound s r) {c : PolicyEvaluation}
    (hc : c ∈ r.policyEvaluations) : PolicyEvaluation.ofJson? (childDocument c).source = some c :=
  PolicyEvaluation.ofJson?_toJson (hs.kept _ (hr.childTime c hc))

theorem read_parent (hs : s.Keeps h) (hr : r ∈ h.records) :
    ResourceEvaluation.ofJson? (document r.resourceEvaluation).source = some r.resourceEvaluation :=
  read_parent_of_sound hs.honest (hs.sound.records r hr)

theorem read_child (hs : s.Keeps h) (hr : r ∈ h.records) {c : PolicyEvaluation}
    (hc : c ∈ r.policyEvaluations) :
    PolicyEvaluation.ofJson? (childDocument c).source = some c :=
  read_child_of_sound hs.honest (hs.sound.records r hr) hc

/-- **A record that is held is answered, whole.** -/
theorem ends_get (hs : s.Keeps h) (hr : r ∈ h.records) {result : Except ServiceError EvaluationRecord} :
    Ends surroundings (get r.resourceEvaluation.id) s result t ↔
      result = .ok r ∧ t = s.after (.store (.searchAll Shelf.evaluations.index
          [{ query := parentQuery r.resourceEvaluation.id }, childSearch r.resourceEvaluation.id]))
        (.ok [⟨[document r.resourceEvaluation], 1, ""⟩,
          ⟨r.policyEvaluations.map childDocument, r.policyEvaluations.length, ""⟩]) := by
  have hparent : ∀ x ∈ h.records, ∀ c ∈ x.policyEvaluations,
      c.resourceEvaluationId = x.resourceEvaluation.id := fun x hx => (hs.sound.records x hx).parent
  have hdocuments := hs.documents_evaluations
  have hperform : (Memory.perform (.searchAll Shelf.evaluations.index
      [{ query := parentQuery r.resourceEvaluation.id }, childSearch r.resourceEvaluation.id])
      s.memory).1 = .ok [⟨[document r.resourceEvaluation], 1, ""⟩,
        ⟨r.policyEvaluations.map childDocument, r.policyEvaluations.length, ""⟩] := by
    show s.memory.searchAll _ _ = _
    simp only [Memory.searchAll, List.mapM_cons, List.mapM_nil, childSearch,
      hs.holds.ordered.search_unsorted, hdocuments, filter_parent, filter_children _ hparent,
      filter_id hs hr, List.map_cons, List.map_nil, List.flatMap_cons, List.flatMap_nil,
      List.append_nil, List.length_map]
    rfl
  have hnamed : (!r.resourceEvaluation.id.isEmpty) = true := by
    rw [(hs.honest.uuid _ (hs.sound.records r hr).id).isEmpty_eq_false]
    rfl
  have hchildren : children ⟨r.policyEvaluations.map childDocument, r.policyEvaluations.length, ""⟩ =
      (pure r.policyEvaluations : Action _) := mapM_decoded fun c hc => read_child hs hr hc
  rw [get, ensure, if_pos hnamed, pure_bind]
  refine (ends_call_bind_of_ok hperform).trans ?_
  simp only [decoded_of (read_parent hs hr), hchildren, pure_bind]
  exact ends_pure

end Records
end EvaluationRecord

/-! ## Appending -/

namespace Service

/-- The record that an operation makes, if it makes one. -/
def Operation.made : (o : Operation) → o.Result → List EvaluationRecord
  | evaluateResource _, r => [r]
  | _, _ => []

section Appending

variable {refusal : Rego.Refusal} {svc : Service} {s t : State} {h h' : Holdings}

/-- **An operation adds to the records what it makes.** -/
theorem Change.records_eq {o : Operation} {r : o.Result} (hc : Change refusal s t h o r h') :
    h'.records = h.records ++ o.made r := by
  cases hc with
  | read reads =>
    have hnone : o.made r = [] := by
      cases o with
      | evaluateResource q => contradiction
      | _ => rfl
    rw [hnone, List.append_nil]
  | evaluateResource sound => rfl
  | _ => exact (List.append_nil _).symm

/-- **Records are only ever appended.** -/
theorem Run.records_prefix {steps : List Step} (hrun : Run svc s steps t) (hs : s.Keeps h) :
    ∃ h', t.Keeps h' ∧ h.records <+: h'.records :=
  hrun.keeps_of hs (List.prefix_refl _) fun _ _ _ _ _ _ _ hc hprefix =>
    hprefix.trans (hc.records_eq ▸ List.prefix_append _ _)

/-- A record that was answered is held. -/
theorem mem_records_of_evaluateResource {caller : Access.Caller} {q : ResourceInquiry}
    {r : EvaluationRecord} (hs : s.Keeps h)
    (he : Ends surroundings (svc.perform caller (.evaluateResource q)) s (.ok r) t) :
    ∃ h', t.Keeps h' ∧ r ∈ h'.records := by
  obtain ⟨h', hs', hchange⟩ := perform_ends hs he
  refine ⟨h', hs', ?_⟩
  have hchange : Change svc.refusal s t h (.evaluateResource q) r h' := hchange
  rw [hchange.records_eq]
  exact List.mem_append_right _ (List.mem_singleton_self r)

end Appending
end Service

/-! ## The log as a whole -/

namespace EvaluationRecord

section Stored

variable {s : State} {h : Holdings}

/-- Every parent that is stored passes if all of its children that are stored do. -/
theorem pass_of_stored (hs : s.Keeps h) {d : Document}
    (hd : d ∈ s.memory.documents Shelf.evaluations.index) (hrelation : d.relation? = some relation) :
    ∃ (e : ResourceEvaluation) (cs : List PolicyEvaluation), d = document e ∧
      (s.memory.documents Shelf.evaluations.index).filter (Query.childrenOf e.id).selects =
        cs.map childDocument ∧ e.pass = cs.all PolicyEvaluation.pass := by
  rw [hs.documents_evaluations] at hd
  obtain ⟨r, hr, hd⟩ := List.mem_flatMap.1 hd
  rcases List.mem_cons.1 hd with rfl | hd
  · exact ⟨r.resourceEvaluation, r.policyEvaluations, rfl, filter_childrenOf hs hr,
      (hs.sound.records r hr).pass⟩
  · obtain ⟨c, -, rfl⟩ := List.mem_map.1 hd
    have hne : childRelation ≠ relation := by decide
    exact absurd (Option.some.inj hrelation) hne

/-- Every child that is stored has one parent that is stored. -/
theorem parent_of_stored (hs : s.Keeps h) {d : Document}
    (hd : d ∈ s.memory.documents Shelf.evaluations.index)
    (hrelation : d.relation? = some childRelation) :
    ∃ c : PolicyEvaluation, d = childDocument c ∧
      ∃ e : ResourceEvaluation, e.id = c.resourceEvaluationId ∧ (s.memory.documents Shelf.evaluations.index).filter
        (parentQuery c.resourceEvaluationId).selects = [document e] := by
  rw [hs.documents_evaluations] at hd ⊢
  obtain ⟨r, hr, hd⟩ := List.mem_flatMap.1 hd
  rcases List.mem_cons.1 hd with rfl | hd
  · have hne : relation ≠ childRelation := by decide
    exact absurd (Option.some.inj hrelation) hne
  · obtain ⟨c, hc, rfl⟩ := List.mem_map.1 hd
    have hparent := (hs.sound.records r hr).parent c hc
    refine ⟨c, rfl, r.resourceEvaluation, hparent.symm, ?_⟩
    rw [hparent, filter_parent, filter_id hs hr]
    rfl

end Stored

/-- **The audit log is append-only.**  In a state that is reached from nothing, every parent passes if
its children do, and every child has one parent.  What is stored of evaluations stays in its place, as
it is, in any later state.  And a record that was answered to a caller who asked for an evaluation is
answered again, exactly, to any caller who may ask for it later. -/
theorem auditLog_appendOnly {svc : Service} {earlier : List Step} {s : State}
    (hrun : Run svc .initial earlier s) :
    (∀ (q : ResourceInquiry) (caller : Access.Caller) (r : EvaluationRecord) (m : State),
      Ends surroundings (svc.perform caller (.evaluateResource q)) s (.ok r) m →
      ∀ (later : List Step) (t : State), Run svc m later t →
      ∀ reader : Access.Caller,
        svc.requirements.allow svc.holds reader .getResourceEvaluation = true →
        (∃ u, Ends surroundings
          (svc.perform reader (.getResourceEvaluation r.resourceEvaluation.id)) t (.ok r) u) ∧
        ∀ result u, Ends surroundings
          (svc.perform reader (.getResourceEvaluation r.resourceEvaluation.id)) t result u →
          result = .ok r) ∧
    (∀ (later : List Step) (t : State), Run svc s later t →
      s.memory.documents Shelf.evaluations.index <+: t.memory.documents Shelf.evaluations.index) ∧
    (∀ d ∈ s.memory.documents Shelf.evaluations.index, d.relation? = some relation →
      ∃ (e : ResourceEvaluation) (cs : List PolicyEvaluation), d = document e ∧
        (s.memory.documents Shelf.evaluations.index).filter (Query.childrenOf e.id).selects =
          cs.map childDocument ∧ e.pass = cs.all PolicyEvaluation.pass) ∧
    (∀ d ∈ s.memory.documents Shelf.evaluations.index, d.relation? = some childRelation →
      ∃ c : PolicyEvaluation, d = childDocument c ∧
        ∃ e : ResourceEvaluation, e.id = c.resourceEvaluationId ∧ (s.memory.documents Shelf.evaluations.index).filter
          (parentQuery c.resourceEvaluationId).selects = [document e]) := by
  obtain ⟨h, hs⟩ := hrun.keeps State.keeps_initial
  refine ⟨fun q caller r m he later t hlater reader hallowed => ?_, fun later t hlater => ?_,
    fun d hd => pass_of_stored hs hd, fun d hd => parent_of_stored hs hd⟩
  · -- the record is held after the call, and whatever is held stays held
    obtain ⟨h', hm, hr⟩ := mem_records_of_evaluateResource hs he
    obtain ⟨h'', ht, hprefix⟩ := hlater.records_prefix hm
    have hkept : r ∈ h''.records := hprefix.subset hr
    constructor
    · exact ⟨_, ends_perform.2 (.inl ⟨hallowed, (ends_get ht hkept).2 ⟨rfl, rfl⟩⟩)⟩
    · intro result u hread
      rcases ends_perform.1 hread with ⟨-, hget⟩ | ⟨hdenied, -⟩
      · exact ((ends_get ht hkept).1 hget).1
      · have hboth : true = false := hallowed.symm.trans hdenied
        contradiction
  · obtain ⟨h', ht, more, hmore⟩ := hlater.records_prefix hs
    rw [hs.documents_evaluations, ht.documents_evaluations, ← hmore, List.flatMap_append]
    exact List.prefix_append _ _

/-- The first record that was ever made is read back. -/
theorem auditLog_appendOnly_first :
    ∃ (steps : List Step) (s : State) (r : EvaluationRecord) (t u : State), Run lenient .initial steps s ∧
      Ends surroundings (lenient.perform administrator (.evaluateResource First.inquiry)) s (.ok r) t ∧
      Ends surroundings (lenient.perform administrator
        (.getResourceEvaluation r.resourceEvaluation.id)) t (.ok r) u := by
  obtain ⟨steps, s, r, t, hrun, -, he⟩ := First.exists_evaluated
  obtain ⟨hread, -⟩ := auditLog_appendOnly hrun
  obtain ⟨⟨u, hu⟩, -⟩ := hread _ _ r t he [] t (.nil t) administrator (administrator_allowed _)
  exact ⟨steps, s, r, t, u, hrun, he, hu⟩

end EvaluationRecord
end Gatehouse
