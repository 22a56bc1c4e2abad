import Gatehouse.Proofs.Group.Management
import Gatehouse.Proofs.Policy.Management

/-!
# What the writing actions on assignments do

Before an assignment is written, what it refers to is looked up on two other shelves
(`checkReferences_ok`).  Nothing is written in between, so what was found is still there when the
assignment is written.
-/

namespace Gatehouse.PolicyAssignment

open Service Store

/-- What a call that assigns does once it has checked the references. -/
def assign (versionId group policyId : String) : Action PolicyAssignment := do
  let time ← now
  let assignment : PolicyAssignment := ⟨idOf policyId group, versionId, group, time, time⟩
  match ← attempt (.write Shelf.policyAssignments.index (.create assignment.document)) with
  | .ok _ => return assignment
  | .error (.alreadyExists ..) => throw (.alreadyAssigned policyId group)
  | .error e => throw (.internal "error creating policy assignment" (.store e))

theorem create_eq (versionId group : String) :
    create versionId group = checkReferences versionId group >>= assign versionId group := rfl

section Writing

variable {refusal : Rego.Refusal} {s t : State} {h : Holdings} {id versionId group policyId : String}

/-- References that were checked are those of a version that may be assigned. -/
theorem checkReferences_ok (hs : s.Keeps h)
    (he : Ends surroundings (checkReferences versionId group) s (.ok policyId) t) :
    h.Assignable versionId group policyId := by
  obtain ⟨-, he⟩ := ends_ensure_bind_ok.1 he
  cases hparts : Policy.ofVersionId? versionId with
  | none =>
    -- an id that does not parse is refused
    rw [hparts] at he
    exact absurd (ends_throw.1 he).1 (by simp)
  | some parts =>
    obtain ⟨parsed, number⟩ := parts
    rw [hparts] at he
    obtain ⟨found, _, hfind, he⟩ := ends_bind_ok.1 he
    have hs₁ := (Policy.reads_findVersion? _).keeps hfind hs
    obtain ⟨hfound, -⟩ := (ends_findVersion? hs).1 hfind
    obtain rfl := Except.ok.inj hfound
    obtain ⟨hsome, he⟩ := ends_ensure_bind_ok.1 he
    obtain ⟨p, _, hrequire, he⟩ := ends_bind_ok.1 he
    have hs₂ := (Policy.reads_require _).keeps hrequire hs₁
    obtain ⟨hp, -⟩ := (ends_require_ok hs₁).1 hrequire
    obtain ⟨hlive, he⟩ := ends_ensure_bind_ok.1 he
    obtain ⟨g, _, hactive, he⟩ := ends_bind_ok.1 he
    obtain ⟨-, hg, hactive, -⟩ := (ends_getActive_ok hs₂).1 hactive
    obtain rfl := Except.ok.inj (ends_pure.1 he).1
    exact ⟨by rw [hparts]; rfl, Option.isSome_iff_exists.1 hsome, ⟨p, hp, by simpa using hlive⟩,
      ⟨g, hg, hactive⟩⟩

/-- An id is free if its document can be created. -/
theorem fits_create {a : PolicyAssignment} :
    (Write.create a.document).Fits (h.documents .policyAssignments) ↔ h.assignment? a.id = none :=
  fits_create_map fun _ => rfl

theorem create_ok (hs : s.Keeps h) {r : PolicyAssignment}
    (he : Ends surroundings (create versionId group) s (.ok r) t) :
    ∃ h', Holds t.memory h' ∧ Change refusal s t h (.createPolicyAssignment versionId group) r h' := by
  obtain ⟨policyId, m, hcheck, he⟩ := ends_bind_ok.1 he
  have hs₁ := (reads_checkReferences _ _).keeps hcheck hs
  have hassignable := checkReferences_ok hs hcheck
  obtain ⟨time, -, he⟩ := ends_now_bind.1 he
  have hshown : time ∈ t.times := State.times_subset he.log_isPrefix (State.mem_times_now time)
  have he := ends_attempt_bind.1 he
  cases hreply : (Memory.perform (.write Shelf.policyAssignments.index (.create (document
      ⟨idOf policyId group, versionId, group, time, time⟩))) (m.after .now time).memory).1 with
  | error e =>
    -- whatever the store says against it, the action fails
    rw [hreply] at he
    cases e <;> exact absurd (ends_throw.1 he).1 (by simp)
  | ok _ =>
    have hfits := hs₁.holds.fits_of_perform hreply
    have hwrite := hs₁.holds.perform_write { h with assignments :=
        h.assignments ++ [⟨idOf policyId group, versionId, group, time, time⟩] } hfits
      (by simp [Write.change, Holdings.documents])
      (Holdings.documents_frame (.inr rfl) (.inr rfl) (.inl rfl) (.inr rfl))
    rw [hreply] at he
    obtain ⟨hr, rfl⟩ := ends_pure.1 he
    obtain rfl := Except.ok.inj hr
    exact ⟨_, hwrite.2, .createAssignment hassignable (fits_create.1 hfits) hshown⟩

/-- Another assignment can be put in the place of one that is held. -/
theorem perform_update {m : Memory} (hm : Holds m h) {a : PolicyAssignment}
    (ha : h.assignment? id = some a) (changed : PolicyAssignment) (hid : changed.id = a.id) :
    (Memory.perform (.write Shelf.policyAssignments.index (.update changed.document)) m).1 = .ok () ∧
    Holds (Memory.perform (.write Shelf.policyAssignments.index (.update changed.document)) m).2
      { h with assignments := h.replaceAssignment changed } := by
  obtain ⟨hmem, -⟩ := Holdings.assignment?_eq_some_imp ha
  have hfits : (Write.update changed.document).Fits (h.documents .policyAssignments) :=
    ⟨_, List.mem_map.2 ⟨a, hmem, rfl⟩, hid.symm⟩
  exact hm.perform_write { h with assignments := h.replaceAssignment changed } hfits
    (Write.change_update_map document h.assignments changed)
    (Holdings.documents_frame (.inr rfl) (.inr rfl) (.inl rfl) (.inr rfl))

theorem update_ok (hs : s.Keeps h) {r : PolicyAssignment}
    (he : Ends surroundings (update id versionId) s (.ok r) t) :
    ∃ h', Holds t.memory h' ∧ Change refusal s t h (.updatePolicyAssignment id versionId) r h' := by
  obtain ⟨a, _, hget, he⟩ := ends_bind_ok.1 he
  have hs₁ := (reads_get _).keeps hget hs
  obtain ⟨-, ha, rfl⟩ := (ends_assignment_ok hs).1 hget
  obtain ⟨policyId, m, hcheck, he⟩ := ends_bind_ok.1 he
  have hs₂ := (reads_checkReferences _ _).keeps hcheck hs₁
  have hassignable := checkReferences_ok hs₁ hcheck
  obtain ⟨hsame, he⟩ := ends_ensure_bind_ok.1 he
  obtain ⟨time, -, he⟩ := ends_now_bind.1 he
  have hshown : time ∈ t.times := State.times_subset he.log_isPrefix (State.mem_times_now time)
  obtain ⟨_, hcall, he⟩ := ends_call_bind_ok.1 he
  obtain ⟨hr, rfl⟩ := ends_pure.1 he
  obtain rfl := Except.ok.inj hr
  have hwrite := perform_update hs₂.holds ha { a with policyVersionId := versionId, updated := time } rfl
  exact ⟨_, hwrite.2, .updateAssignment ha hassignable (by simpa using hsame) hshown⟩

theorem delete_ok (hs : s.Keeps h) (he : Ends surroundings (delete id) s (.ok ()) t) :
    ∃ h', Holds t.memory h' ∧ Change refusal s t h (.deletePolicyAssignment id) () h' := by
  obtain ⟨-, he⟩ := ends_ensure_bind_ok.1 he
  have he := ends_attempt_bind.1 he
  cases hreply : (Memory.perform (.write Shelf.policyAssignments.index (.delete id)) s.memory).1 with
  | error e =>
    rw [hreply] at he
    cases e <;> exact absurd (ends_throw.1 he).1 (by simp)
  | ok _ =>
    have hfits := hs.holds.fits_of_perform hreply
    -- the store dropped a document of that id, so there was an assignment
    have ⟨_, hd, hid⟩ := hfits
    obtain ⟨x, hx, rfl⟩ := List.mem_map.1 hd
    obtain ⟨a, ha⟩ : ∃ a, h.assignment? id = some a :=
      Option.isSome_iff_exists.1 (List.find?_isSome.2 ⟨x, hx, decide_eq_true hid⟩)
    have hwrite := hs.holds.perform_write
      { h with assignments := h.assignments.filter fun x => x.id ≠ id } hfits
      (by rw [Write.change, Holdings.documents, List.filter_map]; rfl)
      (Holdings.documents_frame (.inr rfl) (.inr rfl) (.inl rfl) (.inr rfl))
    rw [hreply] at he
    obtain ⟨-, rfl⟩ := ends_pure.1 he
    exact ⟨_, hwrite.2, .deleteAssignment ha⟩

end Writing
end Gatehouse.PolicyAssignment
