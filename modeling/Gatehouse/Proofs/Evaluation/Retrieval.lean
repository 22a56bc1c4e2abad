import Gatehouse.Proofs.Evaluation.AuditLog
import Gatehouse.Proofs.Service.Faults

/-!
# What is read of records

A record is put together again from its documents: the parent comes from one search, and the children from
another.  Whatever was asked for, what is put together is a record that is held.

1. **Documents tell records apart** (`eq_of_documents`).
2. **One record** (`mem_records_of_get`).  Both searches are made in one request.
3. **A page of records.**  The parents are found in one request (`parents_of_list`), and the children of all
   of them in a later one (`items_of_complete`).  They are paired by their places.
4. **The crux** is that the second request needs nothing of the first but that the records of the parents
   are held when it is answered.  So records may be added between the two.
-/

namespace Gatehouse

open Service Store

namespace EvaluationRecord

variable {s t : State} {h : Holdings}

/-! ## Documents -/

/-- Records that write the same documents are the same. -/
theorem eq_of_documents (hs : s.IsHonest) {r r' : EvaluationRecord} (hr : RecordIsSound s r)
    (hr' : RecordIsSound s r') (hsame : r.documents = r'.documents) : r = r' := by
  obtain ⟨hparent, hchildren⟩ := List.cons_eq_cons.1 hsame
  -- either side reads back as what has written it
  have hread := read_parent_of_sound hs hr
  have hreads := filterMap_read fun c hc => read_child_of_sound hs hr hc
  rw [hparent, read_parent_of_sound hs hr', Option.some_inj] at hread
  rw [hchildren, filterMap_read fun c hc => read_child_of_sound hs hr' hc] at hreads
  cases r
  cases r'
  rw [mk.injEq]
  exact ⟨hread.symm, hreads.symm⟩

/-- The children that are found of a record are its own, in their order. -/
theorem children_found (hs : s.Keeps h) {r : EvaluationRecord} (hr : r ∈ h.records) :
    children (h.found .evaluations (.childrenOf r.resourceEvaluation.id)) = pure r.policyEvaluations := by
  have hhits : (h.found .evaluations (.childrenOf r.resourceEvaluation.id)).hits =
      r.policyEvaluations.map childDocument := by
    rw [Holdings.found, ← hs.holds.documents]
    exact filter_childrenOf hs hr
  rw [children, hhits]
  exact mapM_decoded fun c hc => read_child hs hr hc

/-! ## One record -/

/-- What is read under an id is a record that is held. -/
theorem mem_records_of_get (hs : s.Keeps h) {id : String} {r : EvaluationRecord}
    (he : Ends surroundings (get id) s (.ok r) t) : r ∈ h.records := by
  by_cases hheld : ∃ x ∈ h.records, x.resourceEvaluation.id = id
  · obtain ⟨x, hx, rfl⟩ := hheld
    obtain ⟨hr, -⟩ := (ends_get hs hx).1 he
    rwa [Except.ok.inj hr]
  · -- no parent is found, so that nothing is answered
    have hnone : (h.found .evaluations (parentQuery id)).hits = [] := by
      rw [Holdings.found, Holdings.documents, filter_parent, List.map_eq_nil_iff, List.filter_eq_nil_iff]
      intro x hx hid
      exact hheld ⟨x, hx, by simpa using hid⟩
    obtain ⟨-, he⟩ := ends_ensure_bind_ok.1 he
    have hanswers := hs.perform_searchAll .evaluations [parentQuery id, .childrenOf id] fun q => q
    have hrest := (ends_call_bind_of_ok hanswers).1 he
    simp only [List.map_cons, List.map_nil, hnone] at hrest
    exact absurd (ends_throw.1 hrest).1 (by simp)

/-! ## A page of records -/

/-- The second half of a listing: the children of the parents that were found. -/
def complete (page : Page ResourceEvaluation) : Action (Page EvaluationRecord) := do
  let parents := page.items
  if parents.isEmpty then return ⟨[], page.nextPageToken⟩
  let operation := "error fetching policy evaluations"
  let answers ← call operation
    (.searchAll Shelf.evaluations.index (parents.map fun p => childSearch p.id))
  let found : List SearchResponse := answers
  ensure (found.length = parents.length)
    (.internal operation (.answerCount parents.length found.length))
  let families ← found.mapM children
  return ⟨(parents.zip families).map fun (p, cs) => ⟨p, cs⟩, page.nextPageToken⟩

/-- **A listing finds parents and then completes them.** -/
theorem list_eq (q : HistoryInquiry) : list q = (do
    ensure (!q.resourceUri.isEmpty) (.required "resource uri")
    let page ← Service.list .resourceEvaluation ResourceEvaluation.ofJson? .evaluations
      "error searching resource evaluations" ⟨q.filter, q.pageSize, q.pageToken⟩
      [.hasRelation relation, .term ["resourceVersion", "version"] (.string q.resourceUri)]
      ⟨["created"], true⟩
    complete page) := rfl

/-- Documents of parents are those of records that are held. -/
theorem exists_parents {ds : List Document} (hds : ∀ d ∈ ds, d ∈ h.documents .evaluations ∧
    (Query.hasRelation relation).selects d = true) :
    ∃ rs : List EvaluationRecord, (∀ r ∈ rs, r ∈ h.records) ∧
      ds = rs.map fun r => document r.resourceEvaluation := by
  induction ds with
  | nil => exact ⟨[], fun _ hr => absurd hr List.not_mem_nil, rfl⟩
  | cons d ds ih =>
    obtain ⟨rs, hrs, rfl⟩ := ih fun d hd => hds d (List.mem_cons_of_mem _ hd)
    obtain ⟨hmem, hrelation⟩ := hds d List.mem_cons_self
    obtain ⟨r, hr, hd⟩ := List.mem_flatMap.1 hmem
    rcases List.mem_cons.1 hd with rfl | hd
    · exact ⟨r :: rs, List.forall_mem_cons.2 ⟨hr, hrs⟩, rfl⟩
    · -- a child is no parent
      obtain ⟨c, -, rfl⟩ := List.mem_map.1 hd
      have hsame : childRelation = relation := Option.some.inj (Query.selects_hasRelation.1 hrelation)
      exact absurd hsame (by decide)

/-- The parents that a listing finds are those of records that are held. -/
theorem parents_of_list (hs : s.Keeps h) {operation : String} {o : ListOptions} {clauses : List Query}
    {sort : SortBy} {page : Page ResourceEvaluation}
    (he : Ends surroundings (Service.list .resourceEvaluation ResourceEvaluation.ofJson? .evaluations
      operation o (.hasRelation relation :: clauses) sort) s (.ok page) t) :
    ∃ rs : List EvaluationRecord, (∀ r ∈ rs, r ∈ h.records) ∧ page.items = rs.map resourceEvaluation := by
  obtain ⟨found, m, hfound, he⟩ := ends_bind_ok.1 he
  obtain ⟨rs, hrs, hitems⟩ := exists_parents fun d hd =>
    have hpage := mem_items_of_listDocuments hs hfound d hd
    ⟨hpage.1, hpage.2 _ List.mem_cons_self⟩
  have hdecoded : found.items.mapM (decoded .resourceEvaluation ResourceEvaluation.ofJson?) =
      (pure (rs.map resourceEvaluation) : Action _) := by
    have hread : ∀ e ∈ rs.map resourceEvaluation, ResourceEvaluation.ofJson? (document e).source = some e := by
      intro e he
      obtain ⟨r, hr, rfl⟩ := List.mem_map.1 he
      exact read_parent hs (hrs r hr)
    have hparents : ((rs.map resourceEvaluation).map document).mapM
        (decoded .resourceEvaluation ResourceEvaluation.ofJson?) = (pure _ : Action _) := mapM_decoded hread
    rw [List.map_map] at hparents
    rw [hitems]
    exact hparents
  rw [hdecoded, pure_bind] at he
  obtain ⟨hpage, -⟩ := ends_pure.1 he
  obtain rfl := Except.ok.inj hpage
  exact ⟨rs, hrs, rfl⟩

/-- The children of records that are held are found together, each family in its place. -/
theorem mapM_children_found (hs : s.Keeps h) {rs : List EvaluationRecord} (hrs : ∀ r ∈ rs, r ∈ h.records) :
    (rs.map fun r => h.found .evaluations (.childrenOf r.resourceEvaluation.id)).mapM children =
      (pure (rs.map policyEvaluations) : Action _) :=
  mapM_map_of fun r hr => children_found hs (hrs r hr)

/-- **Parents are completed to the records that they are of**, so long as these are held. -/
theorem items_of_complete (hs : s.Keeps h) {rs : List EvaluationRecord} (hrs : ∀ r ∈ rs, r ∈ h.records)
    {token : String} {page : Page EvaluationRecord}
    (he : Ends surroundings (complete ⟨rs.map resourceEvaluation, token⟩) s (.ok page) t) :
    page.items = rs := by
  cases rs with
  | nil =>
    obtain ⟨hpage, -⟩ := ends_pure.1 he
    obtain rfl := Except.ok.inj hpage
    rfl
  | cons r rs =>
    have hanswers := hs.perform_searchAll .evaluations (r :: rs) fun r =>
      .childrenOf r.resourceEvaluation.id
    have hparents : ((r :: rs).map resourceEvaluation).map (fun p => childSearch p.id) =
        (r :: rs).map fun r => { query := .childrenOf r.resourceEvaluation.id } := List.map_map
    unfold complete at he
    dsimp only at he
    rw [if_neg (by simp), hparents] at he
    have hrest := (ends_call_bind_of_ok hanswers).1 he
    obtain ⟨-, hrest⟩ := ends_ensure_bind_ok.1 hrest
    rw [mapM_children_found hs hrs, pure_bind] at hrest
    obtain ⟨hpage, -⟩ := ends_pure.1 hrest
    obtain rfl := Except.ok.inj hpage
    simp only [List.zip_map', List.map_map]
    exact List.map_id _

end EvaluationRecord
end Gatehouse
