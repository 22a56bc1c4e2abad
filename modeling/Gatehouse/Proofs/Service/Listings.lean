import Gatehouse.Proofs.Group.Names
import Gatehouse.Proofs.Number.Double
import Gatehouse.Proofs.Service.Paging
import Gatehouse.Proofs.Store.Readings

/-!
# Listings are exact

The five listings look on shelves that hold documents of several kinds, and tell them apart by relations,
by the starts of ids, by values and by parents.

1. **What is listed** (`Lists`): some pairs of a document and the thing that it is.
2. **One search** (`lists_of_isWritten`) lists what its clauses and the caller's filter select, on a shelf
   where the things of the kind are known.
3. **Children** are found in a later request.  A record that is held is put together of its parent and all
   the children that are stored for it, and no others (`record_eq`).
4. **The five listings** are described on the store alone: where they look (`shelf`), which documents are of
   the kind (`owns`), what these are (`read?`), which of them are asked for (`covers`) and how they are
   sorted (`le`).
5. **The crux** is the scope of a policy.  Its search looks at how ids of assignments start, and these are
   the assignments of the policy's versions since every assignment has the id of a live policy, one of
   whose versions it names (`covers_assignment`).
-/

namespace Gatehouse

open Service Store

namespace Service

section Lists

variable {α β : Type} {m : Memory} {shelf : Shelf} {what : Item} {read : Json → Option α}
  {operation filter : String} {clauses : List Query} {sort : SortBy} {F : Json → Bool}

/-! ## Listings of what is stored -/

/-- A filter with a meaning is a further clause of the search. -/
theorem search_of_meaning (hF : Filter.meaning? filter = some F) (clauses : List Query) (sort : SortBy) :
    ∃ q, ListOptions.search ⟨filter, 0, ""⟩ clauses sort = .ok { query := q, sort? := some sort } ∧
      ∀ d : Document, q.selects d = (clauses.all (fun c => c.selects d) && F d.source) := by
  unfold Filter.meaning? at hF
  by_cases hblank : filter.toList.all Text.isBlank = true
  · rw [if_pos hblank] at hF
    obtain rfl := Option.some.inj hF
    refine ⟨Query.every (clauses ++ []), ?_, fun d => ?_⟩
    · simp only [ListOptions.search, hblank, if_true]
      rfl
    · rw [Query.selects_every, List.append_nil, Bool.and_true]
  · rw [if_neg hblank] at hF
    split at hF
    · rename_i e he
      obtain rfl := Option.some.inj hF
      refine ⟨Query.every (clauses ++ [.filter e]), ?_, fun d => ?_⟩
      · simp only [ListOptions.search, hblank, he]
        rfl
      · rw [Query.selects_every, List.all_append, List.all_cons, List.all_nil, Bool.and_true]
        rfl
    · contradiction

/-- The action answers just the things of some pairs, in one page.  If they can be sorted they are. -/
def Lists (ask : Action (Page α)) (m : Memory) (kept : List (Document × α)) (le : α → α → Bool)
    (sortable : Prop) : Prop :=
  ∃ found : List (Document × α), Answers ask m (.ok ⟨found.map Prod.snd, ""⟩) ∧
    found.Perm kept ∧ (sortable → IsStableSort (fun x y => le x.2 y.2) kept found)

/-- The documents of a listing are all that its search selects. -/
theorem answers_listDocuments {q : Query} (hq : ListOptions.search ⟨filter, 0, ""⟩ clauses sort =
    .ok { query := q, sort? := some sort }) :
    Answers (listDocuments shelf operation ⟨filter, 0, ""⟩ clauses sort) m
      (.ok ⟨(m.index shelf.index).select q (some sort), ""⟩) := by
  have hperform : (Memory.perform (.search shelf.index { query := q, sort? := some sort }) m).1 =
      .ok ⟨(m.index shelf.index).select q (some sort),
        ((m.index shelf.index).select q (some sort)).length, ""⟩ := m.search_whole _ q _
  unfold listDocuments
  rw [hq]
  refine (answers_liftM _).bind_ok ((answers_attempt rfl m).bind_ok ?_)
  rw [hperform]
  exact answers_pure _

/-- **What is stored and satisfies both the clauses and the filter is listed.** -/
theorem lists_of_isWritten {write : α → Document} {owns : Document → Bool} {held : α → Prop}
    (h : IsWritten write owns read held (m.documents shelf.index)) (hm : m.IsOrdered)
    (hF : Filter.meaning? filter = some F) {covers : α → Bool}
    (hothers : ∀ d ∈ m.documents shelf.index, owns d = false → clauses.all (fun c => c.selects d) = false)
    (hcovers : ∀ a, held a → clauses.all (fun c => c.selects (write a)) = covers a)
    {κ : Type} (cmp : κ → κ → Ordering) [Std.TransCmp cmp] (key : α → κ) {le : α → α → Bool}
    (hle : ∀ a b, le a b = (cmp (key a) (key b)).isLE) {sortable : Prop}
    (hsort : sortable → ∀ a b, held a → held b →
      sort.compare (write a).source (write b).source = cmp (key a) (key b)) :
    Lists (Service.list what read shelf operation ⟨filter, 0, ""⟩ clauses sort) m
      ((readings (readOf owns read) (m.documents shelf.index)).filter fun x =>
        covers x.2 && F x.1.source) le sortable := by
  obtain rfl : le = fun a b => (cmp (key a) (key b)).isLE := funext fun a => funext fun b => hle a b
  obtain ⟨q, hq, hselects⟩ := search_of_meaning hF clauses sort
  let kept := (readings (readOf owns read) (m.documents shelf.index)).filter fun x =>
    covers x.2 && F x.1.source
  have hkept : ∀ x ∈ kept, readOf owns read x.1 = some x.2 ∧ held x.2 ∧ x.1 = write x.2 := fun x hx =>
    have ⟨hd, ha⟩ := mem_readings.1 (List.mem_of_mem_filter hx)
    ⟨ha, h.exists_of_readOf hd ha⟩
  have hfilter : kept.map Prod.fst = (m.documents shelf.index).filter q.selects := by
    refine map_fst_filter_readings fun d hd => ?_
    rw [hselects]
    by_cases howns : owns d = true
    · obtain ⟨a, ha, rfl⟩ := h.written d hd howns
      rw [h.readOf_write ha, hcovers a ha, Option.any_some]
    · rw [hothers d hd (Bool.eq_false_iff.2 howns), readOf, if_neg howns]
      rfl
  have hperm := (hm shelf.index).select_perm q (some sort)
  rw [← Memory.documents, ← hfilter] at hperm
  obtain ⟨found, hfound, hperm⟩ : ∃ found : List (Document × α),
      (m.index shelf.index).select q (some sort) = found.map Prod.fst ∧ found.Perm kept :=
    Eq.mpr (congrFun (congrFun (List.eq_map_comp_perm Prod.fst) _) _) hperm
  refine ⟨found, ?_, hperm, fun hsortable => ?_⟩
  · have hitems : (found.map Prod.fst).mapM (decoded what read) =
        (pure (found.map Prod.snd) : Action _) := by
      refine mapM_map_of fun x hx => decoded_of ?_
      obtain ⟨-, ha, hd⟩ := hkept x (hperm.mem_iff.1 hx)
      rw [hd, h.read x.2 ha]
    unfold Service.list
    refine (answers_listDocuments hq).bind_ok ?_
    simp only [hfound, hitems, pure_bind]
    exact answers_pure _
  · refine isStableSort_found (hm shelf.index) (fun x hx => (hkept x hx).1) hfilter hfound hperm cmp key
      fun x hx y hy => ?_
    obtain ⟨-, ha, hd⟩ := hkept x hx
    obtain ⟨-, hb, hd'⟩ := hkept y hy
    rw [hd, hd']
    exact hsort hsortable x.2 y.2 ha hb

/-- What comes before a listing does not change what it lists. -/
theorem Lists.after {first : Action β} {ask : β → Action (Page α)} {y : β}
    {kept : List (Document × α)} {le : α → α → Bool} {sortable : Prop} (hfirst : Answers first m (.ok y))
    (h : Lists (ask y) m kept le sortable) : Lists (first >>= ask) m kept le sortable := by
  obtain ⟨found, hanswers, hfound⟩ := h
  exact ⟨found, hfirst.bind_ok hanswers, hfound⟩

/-- What is made of the things on a page, one by one, is made of what is listed. -/
theorem Lists.each {ask : Action (Page β)} {finish : Page β → Action (Page α)} {g : β → α}
    {kept : List (Document × β)} {le : β → β → Bool} {le' : α → α → Bool} {sortable : Prop}
    (h : Lists ask m kept le sortable)
    (hfinish : ∀ bs, (∀ b ∈ bs, ∃ d, (d, b) ∈ kept) → Answers (finish ⟨bs, ""⟩) m (.ok ⟨bs.map g, ""⟩))
    (hle : ∀ a b, le' (g a) (g b) = le a b) :
    Lists (ask >>= finish) m (kept.map fun x => (x.1, g x.2)) le' sortable := by
  obtain ⟨found, hanswers, hperm, hsorted⟩ := h
  refine ⟨found.map fun x => (x.1, g x.2), hanswers.bind_ok ?_, hperm.map _, fun hsortable => ?_⟩
  · have hitems : (found.map fun x => (x.1, g x.2)).map Prod.snd = (found.map Prod.snd).map g := by
      rw [List.map_map, List.map_map]
      rfl
    rw [hitems]
    refine hfinish _ fun b hb => ?_
    obtain ⟨x, hx, rfl⟩ := List.mem_map.1 hb
    exact ⟨x.1, hperm.mem_iff.1 hx⟩
  · exact (hsorted hsortable).map fun x y => hle x.2 y.2

end Lists
end Service

/-! ## Children -/

namespace Store.Memory

/-- The evaluations of policies that are stored for an evaluation of a resource, in the order in which they
were made. -/
def children (m : Memory) (id : String) : List PolicyEvaluation :=
  ((m.documents Shelf.evaluations.index).filterMap fun d =>
    if d.relation? = some EvaluationRecord.childRelation then PolicyEvaluation.ofJson? d.source else none).filter
      fun c => c.resourceEvaluationId = id

/-- An evaluation of a resource with the evaluations of policies that are stored for it. -/
def record (m : Memory) (e : ResourceEvaluation) : EvaluationRecord := ⟨e, m.children e.id⟩

end Store.Memory

namespace EvaluationRecord

open Service

variable {s : State} {h : Holdings} {r : EvaluationRecord}

/-- A search for children finds the documents of all that name the parent. -/
theorem children_eq_filterMap (hs : s.Keeps h) (id : String) : s.memory.children id =
    ((s.memory.documents Shelf.evaluations.index).filter (Query.childrenOf id).selects).filterMap
      fun d => PolicyEvaluation.ofJson? d.source := by
  rw [Memory.children, List.filter_filterMap, List.filterMap_filter]
  refine List.filterMap_congr fun d hd => ?_
  obtain ⟨x, hx, hd⟩ := List.mem_flatMap.1 (hs.documents_evaluations ▸ hd)
  rcases List.mem_cons.1 hd with rfl | hd
  · have hrelation : ¬ (document x.resourceEvaluation).relation? = some childRelation := by
      show ¬ some relation = some childRelation
      decide
    rw [if_neg hrelation, childrenOf_selects_parent]
    rfl
  · obtain ⟨c, hc, rfl⟩ := List.mem_map.1 hd
    have hrelation : (childDocument c).relation? = some childRelation := rfl
    rw [if_pos hrelation, read_child hs hx hc, childrenOf_selects_child, Option.filter_some]

/-- **A record that is held is that of its parent.** -/
theorem record_eq (hs : s.Keeps h) (hr : r ∈ h.records) : s.memory.record r.resourceEvaluation = r := by
  have hchildren : s.memory.children r.resourceEvaluation.id = r.policyEvaluations := by
    rw [children_eq_filterMap hs, filter_childrenOf hs hr]
    exact filterMap_read fun c hc => read_child hs hr hc
  rw [Memory.record, hchildren]

/-- Parents that are held are completed to their records. -/
theorem answers_complete_held (hs : s.Keeps h) {ps : List ResourceEvaluation}
    (hps : ∀ p ∈ ps, ∃ r ∈ h.records, r.resourceEvaluation = p) :
    Answers (complete ⟨ps, ""⟩) s.memory (.ok ⟨ps.map s.memory.record, ""⟩) := by
  refine (makes_complete s.memory).answers ⟨?_, rfl⟩
  rw [List.forall₂_map_right_iff, List.forall₂_same]
  intro p hp
  obtain ⟨r, hr, rfl⟩ := hps p hp
  have hkids : kids s.memory r.resourceEvaluation = r.policyEvaluations.map childDocument := by
    rw [kids, (hs.holds.ordered _).select_none]
    exact filter_childrenOf hs hr
  rw [record_eq hs hr, Completes, hkids, Kids, List.forall₂_map_left_iff, List.forall₂_same]
  exact ⟨rfl, fun c hc => read_child hs hr hc⟩

end EvaluationRecord

namespace Service

/-! ## What is listed -/

namespace Listing

/-- Where a listing looks. -/
def shelf : Listing → Shelf
  | policies | policyVersions _ => .policies
  | policyGroups => .policyGroups
  | policyAssignments _ => .policyAssignments
  | resourceEvaluations _ => .evaluations

/-- The relation that things of the kind have in their families, if they have families. -/
def relation? : Listing → Option String
  | policies => some Policy.relation
  | policyVersions _ => some Policy.versionRelation
  | policyGroups | policyAssignments _ => none
  | resourceEvaluations _ => some EvaluationRecord.relation

/-- The document is that of a thing of the kind that is listed. -/
def owns (l : Listing) (d : Document) : Bool := d.relation? = l.relation?

theorem owns_iff {l : Listing} {d : Document} : l.owns d = true ↔ d.relation? = l.relation? :=
  decide_eq_true_iff

/-- The thing that a document is. -/
def read? (m : Memory) : (l : Listing) → Document → Option l.Item
  | policies => readOf (owns policies) Policy.ofJson?
  | policyVersions id => readOf (owns (policyVersions id)) PolicyVersion.ofJson?
  | policyGroups => readOf (owns policyGroups) PolicyGroup.ofJson?
  | policyAssignments scope => readOf (owns (policyAssignments scope)) PolicyAssignment.ofJson?
  | resourceEvaluations uri => fun d =>
    (readOf (owns (resourceEvaluations uri)) ResourceEvaluation.ofJson? d).map m.record

/-- The things that are stored of the kind that is listed, each with its document, in the order in which they
were made. -/
def stored (m : Memory) (l : Listing) : List (Document × l.Item) :=
  readings (l.read? m) (m.documents l.shelf.index)

/-- The thing is one of those that are asked for: a policy or a group that is not deleted, a version of the
policy, an assignment of a version of the policy or for the group, an evaluation of the resource. -/
def covers (m : Memory) : (l : Listing) → l.Item → Bool
  | policies, p => !Policy.deleted p
  | policyVersions id, v => PolicyVersion.policyId v = id
  | policyGroups, g => !PolicyGroup.deleted g
  | policyAssignments scope, a =>
    ((m.version? (PolicyAssignment.policyVersionId a)).any fun v => scope = "policies/" ++ v.policyId) ||
      scope = "policy-groups/" ++ PolicyAssignment.policyGroup a
  | resourceEvaluations uri, r =>
    (EvaluationRecord.resourceEvaluation r).resourceVersion.version = uri

/-- The one thing may come before the other. -/
def le : (l : Listing) → l.Item → l.Item → Bool
  | policies, p, q => ((Policy.created p).compareLater (Policy.created q)).isLE
  | policyVersions _, v, w => PolicyVersion.version w ≤ PolicyVersion.version v
  | policyGroups, g, f => (compare (PolicyGroup.name g) (PolicyGroup.name f)).isLE
  | policyAssignments _, a, b => PolicyAssignment.isNewer a b
  | resourceEvaluations _, r, q =>
    ((EvaluationRecord.resourceEvaluation r).created.compareLater
      (EvaluationRecord.resourceEvaluation q).created).isLE

/-- The listing is sorted by times. -/
def byTime : Listing → Bool
  | policies | policyAssignments _ | resourceEvaluations _ => true
  | policyVersions _ | policyGroups => false

/-- What the listing is about can be listed. -/
def IsOpen (m : Memory) : Listing → Prop
  | policies | policyGroups => True
  | policyVersions id => (m.policy? id).isSome
  | policyAssignments scope => ∃ x, AssignmentScope.ofText? scope = .ok x
  | resourceEvaluations uri => uri ≠ ""

/-- What is listed: the things that are asked for and whose documents satisfy the filter. -/
def kept (m : Memory) (F : Json → Bool) (l : Listing) : List (Document × l.Item) :=
  (l.stored m).filter fun x => l.covers m x.2 && F x.1.source

section Reading

variable {s : State} {h : Holdings}

/-! ### What documents are -/

theorem isWritten_policies (hs : s.Keeps h) : IsWritten Policy.document policies.owns Policy.ofJson?
    (fun p => .policy p ∈ h.policies) (s.memory.documents Shelf.policies.index) where
  own _ _ := owns_iff.2 rfl
  read p hp := hs.read_policy hp
  written d hd howns := by
    rw [hs.documents_policies] at hd
    obtain ⟨e, he, rfl⟩ := List.mem_map.1 hd
    cases e with
    | policy p => exact ⟨p, he, rfl⟩
    | version v =>
      have hsame : some Policy.versionRelation = some Policy.relation := owns_iff.1 howns
      exact absurd hsame (by decide)

theorem isWritten_versions (hs : s.Keeps h) (id : String) :
    IsWritten Policy.versionDocument (policyVersions id).owns PolicyVersion.ofJson?
      (fun v => .version v ∈ h.policies) (s.memory.documents Shelf.policies.index) where
  own _ _ := owns_iff.2 rfl
  read v hv := hs.read_version hv
  written d hd howns := by
    rw [hs.documents_policies] at hd
    obtain ⟨e, he, rfl⟩ := List.mem_map.1 hd
    cases e with
    | policy p =>
      have hsame : some Policy.relation = some Policy.versionRelation := owns_iff.1 howns
      exact absurd hsame (by decide)
    | version v => exact ⟨v, he, rfl⟩

theorem isWritten_groups (hs : s.Keeps h) : IsWritten PolicyGroup.document policyGroups.owns
    PolicyGroup.ofJson? (· ∈ h.groups) (s.memory.documents Shelf.policyGroups.index) :=
  isWritten_map (hs.holds.documents .policyGroups) (fun _ => owns_iff.2 rfl) fun _ => hs.read_group

theorem isWritten_assignments (hs : s.Keeps h) (scope : String) :
    IsWritten PolicyAssignment.document (policyAssignments scope).owns PolicyAssignment.ofJson?
      (· ∈ h.assignments) (s.memory.documents Shelf.policyAssignments.index) :=
  isWritten_map hs.documents_assignments (fun _ => owns_iff.2 rfl) fun _ => hs.read_assignment

theorem isWritten_evaluations (hs : s.Keeps h) (uri : String) :
    IsWritten EvaluationRecord.document (resourceEvaluations uri).owns ResourceEvaluation.ofJson?
      (fun e => ∃ r ∈ h.records, r.resourceEvaluation = e)
      (s.memory.documents Shelf.evaluations.index) where
  own _ _ := owns_iff.2 rfl
  read e he := by
    obtain ⟨r, hr, rfl⟩ := he
    exact EvaluationRecord.read_parent hs hr
  written d hd howns := by
    rw [hs.documents_evaluations] at hd
    obtain ⟨r, hr, hd⟩ := List.mem_flatMap.1 hd
    rcases List.mem_cons.1 hd with rfl | hd
    · exact ⟨_, ⟨r, hr, rfl⟩, rfl⟩
    · obtain ⟨c, -, rfl⟩ := List.mem_map.1 hd
      have hsame : some EvaluationRecord.childRelation = some EvaluationRecord.relation :=
        owns_iff.1 howns
      exact absurd hsame (by decide)

/-- **No document of the kind is passed over.** -/
theorem stored_map_fst (hs : s.Keeps h) (l : Listing) :
    (l.stored s.memory).map Prod.fst = (s.memory.documents l.shelf.index).filter l.owns := by
  have hall : ∀ d ∈ s.memory.documents l.shelf.index,
      l.owns d = (l.read? s.memory d).any fun _ => true := by
    intro d hd
    rw [Option.any_true]
    cases l with
    | policies => exact ((isWritten_policies hs).isSome_readOf hd).symm
    | policyVersions id => exact ((isWritten_versions hs id).isSome_readOf hd).symm
    | policyGroups => exact ((isWritten_groups hs).isSome_readOf hd).symm
    | policyAssignments scope => exact ((isWritten_assignments hs scope).isSome_readOf hd).symm
    | resourceEvaluations uri =>
      exact ((isWritten_evaluations hs uri).isSome_readOf hd).symm.trans Option.isSome_map.symm
  have hmap := map_fst_filter_readings (p := fun _ => true) hall
  rwa [List.filter_eq_self.2 fun _ _ => rfl] at hmap

/-! ### What is answered -/

variable {filter : String} {F : Json → Bool}

/-- Whether the texts of times are in order: they are if the years have four digits. -/
def Sortable (s : State) (l : Listing) : Prop := l.byTime = true → ∀ time ∈ s.times, time.IsCivil

/-- A value is exactly a text, or a truth value, where it is that. -/
theorem selects_term {d : Document} {path : List String} {value v : Json}
    (hv : Json.lookup? path d.source = some v) : (Query.term path value).selects d = value.same v := by
  rw [Query.selects, hv, Option.any_some]

/-- What is not deleted says so. -/
theorem selects_deleted {d : Document} {b : Bool} (hd : Json.lookup? ["deleted"] d.source = some (.bool b)) :
    (Query.term ["deleted"] (.bool false)).selects d = !b := by
  rw [selects_term hd, Json.same]
  cases b <;> rfl

theorem lists_policies (hs : s.Keeps h) (hF : Filter.meaning? filter = some F) :
    Lists (Policy.list ⟨filter, 0, ""⟩) s.memory (policies.kept s.memory F) policies.le
      (policies.Sortable s) := by
  refine lists_of_isWritten (isWritten_policies hs) hs.holds.ordered hF (fun d _ hd => ?_) (fun p _ => ?_)
    Instant.compareLater Policy.created (fun _ _ => rfl) fun hcivil p q hp hq => ?_
  · show (policies.owns d && _) = false
    rw [hd, Bool.false_and]
  · have hdeleted : (Query.term ["deleted"] (.bool false)).selects p.document = !p.deleted :=
      selects_deleted rfl
    have hrelation : (Query.hasRelation Policy.relation).selects p.document = true :=
      Query.selects_hasRelation.2 rfl
    rw [List.all_cons, List.all_cons, List.all_nil, hrelation, hdeleted, Bool.true_and, Bool.and_true]
    rfl
  · exact compare_created (hcivil rfl _ (hs.sound.policyTimes p hp).1)
      (hcivil rfl _ (hs.sound.policyTimes q hq).1) rfl rfl

theorem answers_require (hs : s.Keeps h) {id : String} {p : Policy} (hp : h.policy? id = some p) :
    Answers (Policy.require id) s.memory (.ok p) := by
  obtain ⟨x, hx⟩ := Policy.settled_require id s.memory
  obtain ⟨t, ht⟩ := hx.ends s rfl
  obtain ⟨rfl, -⟩ := (ends_require hs).1 ht
  rwa [hp] at hx

/-- Numbers of versions are ordered as numbers, where they are the values of a field. -/
theorem compare_version (v w : PolicyVersion) : SortBy.compare ⟨["version"], true⟩ v.toJson w.toJson =
    compare w.version.toNat v.version.toNat := by
  have hlimit : ∀ x : PolicyVersion, x.version.toNat < Double.wholeLimit := fun x =>
    Nat.lt_trans x.version.toNat_lt (by decide)
  have hlookup : ∀ x : PolicyVersion,
      Json.lookup? ["version"] x.toJson = some (.ofNat x.version.toNat) := fun _ => rfl
  have hcompare : Json.compare? (.ofNat v.version.toNat) (.ofNat w.version.toNat) =
      some (compare v.version.toNat w.version.toNat) :=
    congrArg some (Double.compare_ofInt (hlimit v) (hlimit w))
  rw [SortBy.compare, hlookup, hlookup]
  simp only [hcompare, Option.getD_some, if_true]
  exact Nat.compare_swap _ _

theorem lists_versions (hs : s.Keeps h) (hF : Filter.meaning? filter = some F) {id : String}
    (hid : (s.memory.policy? id).isSome = true) :
    Lists (Policy.listVersions id ⟨filter, 0, ""⟩) s.memory ((policyVersions id).kept s.memory F)
      (policyVersions id).le ((policyVersions id).Sortable s) := by
  obtain ⟨p, hp⟩ := Option.isSome_iff_exists.1 (hs.policy?_eq ▸ hid)
  refine Lists.after (answers_require hs hp) (lists_of_isWritten (isWritten_versions hs id) hs.holds.ordered hF
    (fun d hd hother => ?_) (fun v _ => ?_) (fun m n : Nat => compare n m) (fun v => v.version.toNat)
    (fun v w => ?_) fun _ v w _ _ => compare_version v w)
  · -- only versions have a parent
    have hd : d ∈ s.memory.documents Shelf.policies.index := hd
    rw [hs.documents_policies] at hd
    obtain ⟨e, -, rfl⟩ := List.mem_map.1 hd
    cases e with
    | policy p => rfl
    | version v =>
      have howns : (policyVersions id).owns (Policy.versionDocument v) = true := owns_iff.2 rfl
      exact absurd (howns.symm.trans hother) (by decide)
  · simp [Query.selects, Policy.versionDocument, Document.parent?, Join.ofChild, covers]
  · rw [Bool.eq_iff_iff, Nat.isLE_compare]
    exact decide_eq_true_iff

theorem lists_groups (hs : s.Keeps h) (hnamed : h.GroupsNamed) (hF : Filter.meaning? filter = some F) :
    Lists (PolicyGroup.list ⟨filter, 0, ""⟩) s.memory (policyGroups.kept s.memory F) policyGroups.le
      (policyGroups.Sortable s) := by
  refine lists_of_isWritten (isWritten_groups hs) hs.holds.ordered hF (fun d hd hother => ?_) (fun g _ => ?_)
    (compare : String → String → Ordering) PolicyGroup.name (fun _ _ => rfl) fun _ g f hg _ => ?_
  · -- all documents on the shelf are those of groups
    obtain ⟨g, -, rfl⟩ := List.mem_map.1 (hs.holds.documents .policyGroups ▸ hd)
    exact absurd (hother.symm.trans (owns_iff.2 rfl)) (by decide)
  · rw [List.all_cons, List.all_nil, Bool.and_true, selects_deleted (b := g.deleted) rfl]
    rfl
  · have hlookup : ∀ x : PolicyGroup, Json.lookup? ["name"] x.document.source = some (.string x.name) :=
      fun _ => rfl
    rw [SortBy.compare, hlookup, hlookup]
    exact PolicyGroup.compareTexts_of_isName (hnamed g hg)

/-- The text of a scope names its subject. -/
theorem text_of_scope {text : String} {scope : AssignmentScope}
    (hscope : AssignmentScope.ofText? text = .ok scope) : '/' ∉ scope.subject.toList ∧
      match scope with
      | .policy id => text = "policies/" ++ id
      | .group name => text = "policy-groups/" ++ name := by
  unfold AssignmentScope.ofText? at hscope
  cases hnamed : AssignmentScope.named? text with
  | none =>
    rw [hnamed] at hscope
    contradiction
  | some found =>
    simp only [hnamed] at hscope
    split at hscope
    · contradiction
    · rename_i hsubject
      obtain rfl := Except.ok.inj hscope
      refine ⟨fun hslash => hsubject (by simp [hslash]), ?_⟩
      unfold AssignmentScope.named? at hnamed
      split at hnamed
      · rename_i id hid
        obtain rfl := Option.some.inj hnamed
        exact Text.dropStart_eq_some hid
      · obtain ⟨name, hname, rfl⟩ := Option.map_eq_some_iff.1 hnamed
        exact Text.dropStart_eq_some hname

/-- **The text of a scope covers what its search selects.** -/
theorem covers_assignment (hs : s.Keeps h) (hlinked : h.IsLinked) {text : String} {scope : AssignmentScope}
    (hscope : AssignmentScope.ofText? text = .ok scope) {a : PolicyAssignment} (ha : a ∈ h.assignments) :
    scope.covers a = (policyAssignments text).covers s.memory a := by
  obtain ⟨p, v, hb⟩ := hlinked.assigned a ha
  obtain ⟨hslash, htext⟩ := text_of_scope hscope
  have hversion : s.memory.version? a.policyVersionId = some v := by
    rw [hs.version?_eq]
    exact hs.holds.version?_eq_some.2 ⟨hb.version, hb.named⟩
  -- the two ways to write a scope have different starts
  have hstarts : ∀ id name : String, ¬ "policies/" ++ id = "policy-groups/" ++ name := by
    intro id name hsame
    have hchars := congrArg String.toList hsame
    simp at hchars
  have hcovers : (policyAssignments text).covers s.memory a = (decide (text = "policies/" ++ v.policyId) ||
      decide (text = "policy-groups/" ++ a.policyGroup)) := by
    show (((s.memory.version? a.policyVersionId).any _) || _) = _
    rw [hversion, Option.any_some]
  rw [hcovers]
  cases scope with
  | policy id =>
    obtain rfl : text = "policies/" ++ id := htext
    have hid : '/' ∉ id.toList := hslash
    have hp : '/' ∉ p.id.toList := (hs.honest.uuid _ (hs.sound.policyId p hb.policy)).slash_notMem
    rw [AssignmentScope.covers, hb.id, Bool.eq_iff_iff, PolicyAssignment.idStart_isPrefixOf_idOf hid hp,
      hb.ofPolicy]
    simp [hstarts]
  | group name =>
    obtain rfl : text = "policy-groups/" ++ name := htext
    rw [AssignmentScope.covers]
    simp [fun id => Ne.symm (hstarts id name)]

theorem lists_assignments (hs : s.Keeps h) (hlinked : h.IsLinked) (hF : Filter.meaning? filter = some F)
    {text : String} {scope : AssignmentScope} (hscope : AssignmentScope.ofText? text = .ok scope) :
    Lists (PolicyAssignment.list text ⟨filter, 0, ""⟩) s.memory
      ((policyAssignments text).kept s.memory F) (policyAssignments text).le
      ((policyAssignments text).Sortable s) := by
  have haccept : Answers (liftM (AssignmentScope.ofText? text)) s.memory (.ok scope) :=
    hscope ▸ answers_liftM _
  refine Lists.after haccept (lists_of_isWritten (isWritten_assignments hs text) hs.holds.ordered hF
    (fun d hd hother => ?_) (fun a ha => ?_) Instant.compareLater PolicyAssignment.created
    (fun _ _ => rfl) fun hcivil a b ha hb => ?_)
  · have hd : d ∈ s.memory.documents Shelf.policyAssignments.index := hd
    rw [hs.documents_assignments] at hd
    obtain ⟨a, -, rfl⟩ := List.mem_map.1 hd
    exact absurd (hother.symm.trans (owns_iff.2 rfl)) (by decide)
  · rw [List.all_cons, List.all_nil, Bool.and_true, scope.selects_document]
    exact covers_assignment hs hlinked hscope ha
  · exact compare_created (hcivil rfl _ (hs.sound.assignmentTimes a ha).1)
      (hcivil rfl _ (hs.sound.assignmentTimes b hb).1) rfl rfl

/-- The evaluation is of the resource. -/
def isOf (uri : String) (e : ResourceEvaluation) : Bool := e.resourceVersion.version = uri

/-- The parents of the records that are listed. -/
def keptParents (m : Memory) (F : Json → Bool) (uri : String) : List (Document × ResourceEvaluation) :=
  (readings (readOf (resourceEvaluations uri).owns ResourceEvaluation.ofJson?)
    (m.documents Shelf.evaluations.index)).filter fun x => isOf uri x.2 && F x.1.source

theorem kept_evaluations (m : Memory) (F : Json → Bool) (uri : String) :
    (resourceEvaluations uri).kept m F = (keptParents m F uri).map fun x => (x.1, m.record x.2) := by
  have hstored : (resourceEvaluations uri).stored m =
      (readings (readOf (resourceEvaluations uri).owns ResourceEvaluation.ofJson?)
        (m.documents Shelf.evaluations.index)).map fun x => (x.1, m.record x.2) := by
    rw [readings, List.map_filterMap]
    refine List.filterMap_congr fun d _ => ?_
    rw [Option.map_map]
    exact Option.map_map ..
  rw [kept, hstored]
  exact List.filter_map

theorem lists_parents (hs : s.Keeps h) (hF : Filter.meaning? filter = some F) (uri : String) :
    Lists (Service.list .resourceEvaluation ResourceEvaluation.ofJson? .evaluations
      "error searching resource evaluations" ⟨filter, 0, ""⟩
      [.hasRelation EvaluationRecord.relation, .term ["resourceVersion", "version"] (.string uri)]
      ⟨["created"], true⟩) s.memory (keptParents s.memory F uri)
      (fun e f => (e.created.compareLater f.created).isLE) ((resourceEvaluations uri).Sortable s) := by
  refine lists_of_isWritten (isWritten_evaluations hs uri) hs.holds.ordered hF (fun d _ hd => ?_)
    (fun e _ => ?_) Instant.compareLater ResourceEvaluation.created (fun _ _ => rfl)
    fun hcivil e f he hf => ?_
  · show ((resourceEvaluations uri).owns d && _) = false
    rw [hd, Bool.false_and]
  · have hrelation : (Query.hasRelation EvaluationRecord.relation).selects (EvaluationRecord.document e) =
        true := Query.selects_hasRelation.2 rfl
    have hversion : Json.lookup? ["resourceVersion", "version"] (EvaluationRecord.document e).source =
        some (.string e.resourceVersion.version) := rfl
    rw [List.all_cons, List.all_cons, List.all_nil, hrelation, selects_term hversion, Json.same,
      Bool.true_and, Bool.and_true]
    exact decide_eq_decide.2 eq_comm
  · obtain ⟨r, hr, rfl⟩ := he
    obtain ⟨q, hq, rfl⟩ := hf
    exact compare_created (hcivil rfl _ (hs.sound.records r hr).time)
      (hcivil rfl _ (hs.sound.records q hq).time) rfl rfl

/-- **Each parent that is found is completed to its record.** -/
theorem lists_evaluations (hs : s.Keeps h) (hF : Filter.meaning? filter = some F) {uri : String}
    (huri : uri ≠ "") : Lists (EvaluationRecord.list ⟨uri, filter, 0, ""⟩) s.memory
      ((resourceEvaluations uri).kept s.memory F) (resourceEvaluations uri).le
      ((resourceEvaluations uri).Sortable s) := by
  have hgiven : Answers (ensure (!uri.isEmpty) (.required "resource uri")) s.memory (.ok ()) := by
    have hensure := answers_ensure (m := s.memory) (!uri.isEmpty) (.required "resource uri")
    rwa [if_pos (by simpa using huri)] at hensure
  rw [EvaluationRecord.list_eq, kept_evaluations]
  refine Lists.after hgiven ((lists_parents hs hF uri).each (fun ps hps => ?_) fun _ _ => rfl)
  refine EvaluationRecord.answers_complete_held hs fun e he => ?_
  obtain ⟨d, hd⟩ := hps e he
  obtain ⟨hmem, hread⟩ := mem_readings.1 (List.mem_of_mem_filter hd)
  exact ((isWritten_evaluations hs uri).exists_of_readOf hmem hread).1

end Reading

/-- **Listings are exact, and filters only narrow them.**  In a state that is reached from nothing, every
document of a kind is that of a thing.  A caller who may list things of this kind, with a filter that is
accepted and for all of them at once, is answered those that are asked for and whose stored document
satisfies the filter, each once.  So no filter lets anything else appear.  They are sorted stably, from the
order in which they were made: policies, assignments and evaluations by their creation, the latest first, if
the clock has shown years of four digits so far (RFC 3339 writes no others); versions by their numbers, the
greatest first; and groups by their names. -/
theorem listings_exact {svc : Service} {steps : List Step} {s : State} (hrun : Run svc .initial steps s)
    (l : Listing) (hopen : l.IsOpen s.memory) {filter : String} {F : Json → Bool}
    (hF : Filter.meaning? filter = some F) {caller : Access.Caller}
    (hallowed : svc.requirements.allow svc.holds caller (l.operation ⟨filter, 0, ""⟩).method = true) :
    (l.stored s.memory).map Prod.fst = (s.memory.documents l.shelf.index).filter l.owns ∧
    ∃ found : List (Document × l.Item),
      Answers (l.call svc caller ⟨filter, 0, ""⟩) s.memory (.ok ⟨found.map Prod.snd, ""⟩) ∧
      found.Perm (l.kept s.memory F) ∧ (found.map fun x => x.1.id).Nodup ∧
      (l.Sortable s → IsStableSort (fun x y => l.le x.2 y.2) (l.kept s.memory F) found) := by
  obtain ⟨h, hs, hlinked, hnamed⟩ := hrun.linked_named
  have hgate : Answers (liftM (svc.authorize caller (l.operation ⟨filter, 0, ""⟩).method)) s.memory
      (.ok ()) := by
    have hauthorize : svc.authorize caller (l.operation ⟨filter, 0, ""⟩).method = .ok () := by
      rw [authorize, if_pos hallowed]
    exact hauthorize ▸ answers_liftM _
  have hlists : Lists (l.call svc caller ⟨filter, 0, ""⟩) s.memory (l.kept s.memory F) l.le
      (l.Sortable s) := by
    cases l with
    | policies => exact Lists.after hgate (lists_policies hs hF)
    | policyVersions id => exact Lists.after hgate (lists_versions hs hF hopen)
    | policyGroups => exact Lists.after hgate (lists_groups hs hnamed hF)
    | policyAssignments text =>
      obtain ⟨scope, hscope⟩ := hopen
      exact Lists.after hgate (lists_assignments hs hlinked hF hscope)
    | resourceEvaluations uri => exact Lists.after hgate (lists_evaluations hs hF hopen)
  obtain ⟨found, hanswers, hperm, hsorted⟩ := hlists
  have hstored := stored_map_fst hs l
  refine ⟨hstored, found, hanswers, hperm, ?_, hsorted⟩
  -- no two documents share an id
  have hids : ((l.stored s.memory).map fun x => x.1.id).Nodup := by
    have hmap : ((l.stored s.memory).map Prod.fst).map Document.id =
        (l.stored s.memory).map fun x => x.1.id := List.map_map
    rw [← hmap, hstored]
    exact (hs.holds.ordered.nodup_ids l.shelf.index).sublist (List.filter_sublist.map _)
  exact (hperm.map _).symm.nodup (hids.sublist (List.filter_sublist.map _))

/-- The one assignment of the first policy is listed, since it is for the group of the filter. -/
theorem listings_exact_first :
    let l := policyAssignments ("policies/" ++ First.id)
    let filter := "policyGroup == \"production\""
    ∃ (steps : List Step) (s : State) (F : Json → Bool) (found : List (Document × PolicyAssignment)),
      Run lenient .initial steps s ∧ Filter.meaning? filter = some F ∧
      Answers (l.call lenient administrator ⟨filter, 0, ""⟩) s.memory (.ok ⟨found.map Prod.snd, ""⟩) ∧
      found.map Prod.snd = [First.assignment] ∧
      IsStableSort (fun x y => l.le x.2 y.2) (l.kept s.memory F) found := by
  intro l filter
  obtain ⟨steps, s, hrun, hs, -, htimes⟩ := First.exists_assigned
  have hmeaning : (Filter.meaning? filter).any (fun F => F First.assignment.toJson) = true := by
    decide +kernel
  obtain ⟨F, hF, hholds⟩ := (Option.any_eq_true _ _).1 hmeaning
  have hopen : l.IsOpen s.memory := ⟨.policy First.id, by decide⟩
  obtain ⟨-, found, hanswers, hperm, -, hsorted⟩ :=
    listings_exact hrun l hopen hF (administrator_allowed _)
  have hstored : l.stored s.memory = [(First.assignment.document, First.assignment)] := by
    have hdocuments : s.memory.documents l.shelf.index = [First.assignment.document] :=
      hs.documents_assignments
    have hread : l.read? s.memory First.assignment.document = some First.assignment :=
      (isWritten_assignments hs _).readOf_write (List.mem_singleton_self _)
    rw [stored, hdocuments, readings, List.filterMap_cons, hread]
    rfl
  have hcovers : l.covers s.memory First.assignment = true := by
    show ((s.memory.version? First.assignment.policyVersionId).any _ || _) = true
    rw [hs.version?_eq]
    decide
  have hkept : l.kept s.memory F = [(First.assignment.document, First.assignment)] := by
    rw [kept, hstored]
    refine List.filter_eq_self.2 fun x hx => ?_
    obtain rfl := List.mem_singleton.1 hx
    exact Bool.and_eq_true_iff.2 ⟨hcovers, hholds⟩
  have hfound : found = [(First.assignment.document, First.assignment)] :=
    List.perm_singleton.1 (hkept ▸ hperm)
  refine ⟨steps, s, F, found, hrun, hF, hanswers, by rw [hfound]; rfl, hsorted fun _ time htime => ?_⟩
  rw [htimes time htime]
  exact First.time_isCivil

end Listing
end Service
end Gatehouse
