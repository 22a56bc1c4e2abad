import Gatehouse.Proofs.Service.Change

/-!
# What the writing actions on groups do

Groups are kept under their names.  A new group finds its name free, also of groups that are deleted:
the store refuses the document otherwise, and the name is never given again.
-/

namespace Gatehouse.PolicyGroup

open Service Store

section Writing

variable {refusal : Rego.Refusal} {s t : State} {h : Holdings} {name description : String}

/-- A name is free if its document can be created. -/
theorem fits_create {g : PolicyGroup} :
    (Write.create g.document).Fits (h.documents .policyGroups) ↔ h.group? g.name = none :=
  fits_create_map fun _ => rfl

theorem create_ok (hs : s.Keeps h) {r : PolicyGroup}
    (he : Ends surroundings (create name description) s (.ok r) t) :
    ∃ h', Holds t.memory h' ∧ Change refusal s t h (.createPolicyGroup name description) r h' := by
  obtain ⟨hnamed, he⟩ := ends_ensure_bind_ok.1 he
  obtain ⟨time, -, he⟩ := ends_now_bind.1 he
  have hshown : time ∈ t.times := State.times_subset he.log_isPrefix (State.mem_times_now time)
  have he := ends_attempt_bind.1 he
  cases hreply : (Memory.perform (.write Shelf.policyGroups.index
      (.create (document ⟨name, description, false, time, time⟩))) (s.after .now time).memory).1 with
  | error e =>
    -- whatever the store's error is, it is not answered with a group
    rw [hreply] at he
    cases e <;> exact absurd (ends_throw.1 he).1 (by simp)
  | ok _ =>
    have hfits := hs.holds.fits_of_perform hreply
    have hwrite := hs.holds.perform_write
      { h with groups := h.groups ++ [⟨name, description, false, time, time⟩] } hfits
      (by simp [Write.change, Holdings.documents])
      (Holdings.documents_frame (.inr rfl) (.inl rfl) (.inr rfl) (.inr rfl))
    rw [hreply] at he
    obtain ⟨hr, rfl⟩ := ends_pure.1 he
    obtain rfl := Except.ok.inj hr
    exact ⟨_, hwrite.2, .createGroup hnamed (fits_create.1 hfits) hshown⟩

/-- Another group can be put in the place of one that is held. -/
theorem perform_update {m : Memory} (hm : Holds m h) {g : PolicyGroup} (hg : h.group? name = some g)
    (changed : PolicyGroup) (hname : changed.name = g.name) :
    (Memory.perform (.write Shelf.policyGroups.index (.update changed.document)) m).1 = .ok () ∧
    Holds (Memory.perform (.write Shelf.policyGroups.index (.update changed.document)) m).2
      { h with groups := h.replaceGroup changed } := by
  obtain ⟨hmem, -⟩ := Holdings.group?_eq_some_imp hg
  have hfits : (Write.update changed.document).Fits (h.documents .policyGroups) :=
    ⟨_, List.mem_map.2 ⟨g, hmem, rfl⟩, hname.symm⟩
  exact hm.perform_write { h with groups := h.replaceGroup changed } hfits
    (Write.change_update_map document h.groups changed)
    (Holdings.documents_frame (.inr rfl) (.inl rfl) (.inr rfl) (.inr rfl))

theorem update_ok (hs : s.Keeps h) {r : PolicyGroup}
    (he : Ends surroundings (update name description) s (.ok r) t) :
    ∃ h', Holds t.memory h' ∧ Change refusal s t h (.updatePolicyGroup name description) r h' := by
  obtain ⟨g, _, hactive, he⟩ := ends_bind_ok.1 he
  obtain ⟨-, hg, hlive, rfl⟩ := (ends_getActive_ok hs).1 hactive
  obtain ⟨time, -, he⟩ := ends_now_bind.1 he
  have hshown : time ∈ t.times := State.times_subset he.log_isPrefix (State.mem_times_now time)
  obtain ⟨_, hcall, he⟩ := ends_call_bind_ok.1 he
  obtain ⟨hr, rfl⟩ := ends_pure.1 he
  obtain rfl := Except.ok.inj hr
  have hwrite := perform_update hs.holds hg { g with description := description, updated := time } rfl
  exact ⟨_, hwrite.2, .updateGroup hg hlive hshown⟩

theorem delete_ok (hs : s.Keeps h) (he : Ends surroundings (delete name) s (.ok ()) t) :
    ∃ h', Holds t.memory h' ∧ Change refusal s t h (.deletePolicyGroup name) () h' := by
  obtain ⟨g, _, hactive, he⟩ := ends_bind_ok.1 he
  obtain ⟨-, hg, hlive, rfl⟩ := (ends_getActive_ok hs).1 hactive
  obtain ⟨time, -, he⟩ := ends_now_bind.1 he
  have hshown : time ∈ t.times := State.times_subset he.log_isPrefix (State.mem_times_now time)
  obtain ⟨-, rfl⟩ := ends_call.1 he
  have hwrite := perform_update hs.holds hg { g with deleted := true, updated := time } rfl
  exact ⟨_, hwrite.2, .deleteGroup hg hlive hshown⟩

end Writing
end Gatehouse.PolicyGroup
