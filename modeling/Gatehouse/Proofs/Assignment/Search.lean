import Gatehouse.Proofs.Service.Lookup
import Gatehouse.Proofs.Time.Order
import Mathlib.Data.List.Perm.Basic

/-!
# Which assignments are found, and in which order

An action that asks for the assignments of a scope gets every assignment that the scope covers, once.
They are sorted by the text of their creation time, newest first.  The store compares such texts as
times if both have the form of RFC 3339, whose years have four digits; then the order is chronological,
and assignments of one instant stay in the order in which they were made.
-/

namespace Gatehouse

open Service Store

/-! ## Chronological order -/

/-- The one assignment is at least as new as the other. -/
def PolicyAssignment.isNewer (a b : PolicyAssignment) : Bool := (a.created.compareLater b.created).isLE

/-- Times of years with four digits are ordered as times, where they are the values of a field. -/
theorem compare_created {a b : Json} {s t : Instant} (hs : s.IsCivil) (ht : t.IsCivil)
    (ha : Json.lookup? ["created"] a = some s.toJson) (hb : Json.lookup? ["created"] b = some t.toJson) :
    SortBy.compare ⟨["created"], true⟩ a b = s.compareLater t := by
  have hcompare : Json.compareTexts s.toText t.toText = s.compare t := by
    simp only [Json.compareTexts, Instant.ofStrict?_toText hs, Instant.ofStrict?_toText ht]
  simp only [SortBy.compare, ha, hb, Instant.toJson, Json.compare?, hcompare, if_true, Option.getD_some,
    Instant.compareLater]
  exact (@Std.OrientedCmp.eq_swap _ Instant.compare _ _ _).symm

/-! ## Scopes -/

/-- An assignment is in a scope. -/
def AssignmentScope.covers : AssignmentScope → PolicyAssignment → Bool
  | policy id, a => (PolicyAssignment.idStart id).toList.isPrefixOf a.id.toList
  | group name, a => name = a.policyGroup

theorem AssignmentScope.selects_document (scope : AssignmentScope) (a : PolicyAssignment) :
    scope.query.selects a.document = scope.covers a := by
  cases scope with
  | policy id => rfl
  | group name => simp [query, covers, Query.selects, Json.lookup?, PolicyAssignment.document,
      PolicyAssignment.toJson, Json.member?, Json.same]

section Search

variable {s t : State} {h : Holdings}

/-- The documents that a scope selects are those of the assignments that it covers. -/
theorem filter_selects (hs : s.Keeps h) (scope : AssignmentScope) :
    (s.memory.index Shelf.policyAssignments.index).toList.filter scope.query.selects =
      (h.assignments.filter scope.covers).map PolicyAssignment.document := by
  have hlist : (s.memory.index Shelf.policyAssignments.index).toList =
      h.assignments.map PolicyAssignment.document := hs.documents_assignments
  rw [hlist, List.filter_map]
  congr 1
  exact List.filter_congr fun a _ => scope.selects_document a

/-- What a scope selects are the documents of the assignments that it covers, in some order. -/
theorem select_scope (hs : s.Keeps h) (scope : AssignmentScope) : ∃ as : List PolicyAssignment,
    (s.memory.index Shelf.policyAssignments.index).select scope.query
      (some PolicyAssignment.newestFirst) = as.map PolicyAssignment.document ∧
    as.Perm (h.assignments.filter scope.covers) := by
  have hperm := (hs.holds.ordered Shelf.policyAssignments.index).select_perm scope.query
    (some PolicyAssignment.newestFirst)
  rw [filter_selects hs] at hperm
  exact Eq.mpr (congrFun (congrFun (List.eq_map_comp_perm PolicyAssignment.document) _) _) hperm

/-- And if their times have years of four digits, in chronological order. -/
theorem select_scope_sorted (hs : s.Keeps h) (scope : AssignmentScope)
    (hcivil : ∀ a ∈ h.assignments, a.created.IsCivil) :
    (s.memory.index Shelf.policyAssignments.index).select scope.query
      (some PolicyAssignment.newestFirst) =
    ((h.assignments.filter scope.covers).mergeSort PolicyAssignment.isNewer).map
      PolicyAssignment.document := by
  -- the key of a document is the time that it writes
  let key : Document → Instant := fun d =>
    ((PolicyAssignment.ofJson? d.source).map PolicyAssignment.created).getD ⟨0, 0⟩
  have hkey : ∀ a ∈ h.assignments, key a.document = a.created := fun a ha => by
    simp only [key, hs.read_assignment ha, Option.map_some, Option.getD_some]
  have hlist : (s.memory.index Shelf.policyAssignments.index).toList =
      h.assignments.map PolicyAssignment.document := hs.documents_assignments
  have hselect := (hs.holds.ordered Shelf.policyAssignments.index).select_some
    (s := PolicyAssignment.newestFirst) (q := scope.query) Instant.compareLater key (by
      rw [hlist]
      intro x hx y hy _ _
      obtain ⟨a, ha, rfl⟩ := List.mem_map.1 hx
      obtain ⟨b, hb, rfl⟩ := List.mem_map.1 hy
      rw [hkey a ha, hkey b hb]
      exact compare_created (hcivil a ha) (hcivil b hb) rfl rfl)
  rw [hselect, filter_selects hs]
  refine (List.map_mergeSort fun a ha b hb => ?_).symm
  rw [hkey a (List.mem_of_mem_filter ha), hkey b (List.mem_of_mem_filter hb)]
  rfl

/-- An action that asks for the assignments of a scope gets what the scope selects. -/
theorem ends_assignments_of_select (hs : s.Keeps h) {scope : AssignmentScope} {as : List PolicyAssignment}
    (has : (s.memory.index Shelf.policyAssignments.index).select scope.query
      (some PolicyAssignment.newestFirst) = as.map PolicyAssignment.document)
    (hmem : ∀ a ∈ as, a ∈ h.assignments) {r : Except ServiceError (List PolicyAssignment)} :
    Ends surroundings scope.assignments s r t ↔ r = .ok as ∧
      t = s.after (.store (.search Shelf.policyAssignments.index
          { query := scope.query, sort? := some PolicyAssignment.newestFirst }))
        (.ok ⟨as.map PolicyAssignment.document, as.length, ""⟩) := by
  have hread : (as.map PolicyAssignment.document).mapM
      (decoded .policyAssignment PolicyAssignment.ofJson?) = (pure as : Action _) :=
    mapM_decoded fun a ha => hs.read_assignment (hmem a ha)
  have hperform : (Memory.perform (.search Shelf.policyAssignments.index
      { query := scope.query, sort? := some PolicyAssignment.newestFirst }) s.memory).1 =
      .ok ⟨as.map PolicyAssignment.document, as.length, ""⟩ := by
    show s.memory.search _ _ = _
    rw [Memory.search_whole, has, List.length_map]
  rw [AssignmentScope.assignments, ends_call_bind_of_ok hperform, hread]
  exact ends_pure

/-- **All assignments of a scope are found, the newest first.** -/
theorem ends_assignments (hs : s.Keeps h) {scope : AssignmentScope}
    {r : Except ServiceError (List PolicyAssignment)}
    (he : Ends surroundings scope.assignments s r t) :
    ∃ as : List PolicyAssignment, r = .ok as ∧ as.Perm (h.assignments.filter scope.covers) ∧
      ((∀ a ∈ h.assignments, a.created.IsCivil) →
        as = (h.assignments.filter scope.covers).mergeSort PolicyAssignment.isNewer) ∧
      t = s.after (.store (.search Shelf.policyAssignments.index
          { query := scope.query, sort? := some PolicyAssignment.newestFirst }))
        (.ok ⟨as.map PolicyAssignment.document, as.length, ""⟩) := by
  obtain ⟨as, has, hperm⟩ := select_scope hs scope
  have hmem : ∀ a ∈ as, a ∈ h.assignments := fun a ha =>
    List.mem_of_mem_filter (hperm.mem_iff.1 ha)
  obtain ⟨hr, ht⟩ := (ends_assignments_of_select hs has hmem).1 he
  refine ⟨as, hr, hperm, fun hcivil => ?_, ht⟩
  have hsorted := has.symm.trans (select_scope_sorted hs scope hcivil)
  -- the documents are those of both lists, and each list reads back
  have hread : ∀ as : List PolicyAssignment, (∀ a ∈ as, a ∈ h.assignments) →
      (as.map PolicyAssignment.document).filterMap (fun d => PolicyAssignment.ofJson? d.source) = as :=
    fun as has => filterMap_read fun a ha => hs.read_assignment (has a ha)
  rw [← hread as hmem, hsorted]
  exact hread _ fun a ha => List.mem_of_mem_filter (List.mem_mergeSort.1 ha)

/-- Looking for assignments never fails. -/
theorem assignments_succeeds (hs : s.Keeps h) (scope : AssignmentScope) :
    ∃ (as : List PolicyAssignment) (t : State), Ends surroundings scope.assignments s (.ok as) t ∧
      as.Perm (h.assignments.filter scope.covers) ∧ t.given = s.given := by
  obtain ⟨as, has, hperm⟩ := select_scope hs scope
  have hmem : ∀ a ∈ as, a ∈ h.assignments := fun a ha =>
    List.mem_of_mem_filter (hperm.mem_iff.1 ha)
  exact ⟨as, _, (ends_assignments_of_select hs has hmem).2 ⟨rfl, rfl⟩, hperm, by simp⟩

end Search
end Gatehouse
