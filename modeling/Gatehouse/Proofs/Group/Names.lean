import Gatehouse.Proofs.Service.Links
import Gatehouse.Proofs.Service.Run

/-!
# Names of groups

A group gets its name when it is created, from letters, digits, underscores and hyphens, and keeps it.

1. **Every group that is held has such a name** (`Change.groupsNamed`), in whatever state is reached
   (`Run.linked_named`).
2. **A name is no time**, since a time has colons.  So names are ordered by their characters, even those that
   look like a date.
-/

namespace Gatehouse

open Service Store

/-! ## Texts without colons -/

namespace TimeReader

variable {α β : Type} {c : Char}

/-- There is nothing to read without the character. -/
def Needs (c : Char) (p : TimeReader α) : Prop := ∀ cs, c ∉ cs → p cs = none

/-- What is left is a part of what there was. -/
def Shrinks (p : TimeReader α) : Prop := ∀ cs a rest, p cs = some (a, rest) → rest ⊆ cs

theorem Needs.bind {p : TimeReader α} (h : Needs c p) (f : α → TimeReader β) : Needs c (p >>= f) := by
  intro cs hcs
  show (p cs).bind _ = none
  rw [h cs hcs]
  rfl

theorem Shrinks.bind_needs {p : TimeReader α} {f : α → TimeReader β} (hp : Shrinks p)
    (hf : ∀ a, Needs c (f a)) : Needs c (p >>= f) := by
  intro cs hcs
  show (p cs).bind (fun x => f x.1 x.2) = none
  cases hread : p cs with
  | none => rfl
  | some x => exact hf x.1 x.2 fun hmem => hcs (hp cs x.1 x.2 hread hmem)

theorem shrinks_number (least most : Nat) : Shrinks (number least most) := by
  intro cs n rest h
  unfold number at h
  dsimp only at h
  split at h
  · contradiction
  · cases h
    exact List.drop_subset _ _

theorem oneOf_eq_some {choices cs rest : List Char} {d : Char} (h : oneOf choices cs = some (d, rest)) :
    d ∈ choices ∧ cs = d :: rest := by
  cases cs with
  | nil => contradiction
  | cons e cs =>
    rw [oneOf] at h
    by_cases he : choices.contains e = true
    · rw [if_pos he] at h
      cases h
      exact ⟨by simpa using he, rfl⟩
    · rw [if_neg he] at h
      contradiction

theorem shrinks_oneOf (choices : List Char) : Shrinks (oneOf choices) := by
  intro cs d rest h
  rw [(oneOf_eq_some h).2]
  exact List.subset_cons_self _ _

theorem needs_oneOf (c : Char) : Needs c (oneOf [c]) := by
  intro cs hcs
  cases hread : oneOf [c] cs with
  | none => rfl
  | some x =>
    obtain ⟨d, rest⟩ := x
    obtain ⟨hd, rfl⟩ := oneOf_eq_some hread
    obtain rfl := List.mem_singleton.1 hd
    exact absurd List.mem_cons_self hcs

end TimeReader

open TimeReader in
/-- A text without a colon is no time. -/
theorem Instant.ofStrict?_eq_none {s : String} (h : ':' ∉ s.toList) : Instant.ofStrict? s = none := by
  have hstrict : Needs ':' strict := by
    unfold strict
    exact (shrinks_number 4 4).bind_needs fun _ => (shrinks_oneOf _).bind_needs fun _ =>
      (shrinks_number 2 2).bind_needs fun _ => (shrinks_oneOf _).bind_needs fun _ =>
      (shrinks_number 2 2).bind_needs fun _ => (shrinks_oneOf _).bind_needs fun _ =>
      (shrinks_number 2 2).bind_needs fun _ => (needs_oneOf ':').bind _
  rw [ofStrict?, ofWhole?, hstrict _ h]

namespace PolicyGroup

theorem colon_notMem_of_isName {name : String} (h : isName name = true) : ':' ∉ name.toList := by
  intro hmem
  rw [isName, Bool.and_eq_true, List.all_eq_true] at h
  exact absurd (h.2 ':' hmem) (by decide)

/-- Names are ordered by their characters. -/
theorem compareTexts_of_isName {a b : String} (ha : isName a = true) :
    Json.compareTexts a b = compare a b := by
  rw [Json.compareTexts, Instant.ofStrict?_eq_none (colon_notMem_of_isName ha)]

end PolicyGroup

/-! ## Names that are held -/

namespace Service

variable {refusal : Rego.Refusal} {s t : State} {h h' : Holdings}

/-- Every group that is held has a name. -/
def Holdings.GroupsNamed (h : Holdings) : Prop := ∀ g ∈ h.groups, PolicyGroup.isName g.name = true

/-- A group in the place of one of its name has a name. -/
theorem Holdings.GroupsNamed.replaceGroup (hh : h.GroupsNamed) {f g : PolicyGroup} (hf : f ∈ h.groups)
    (hname : g.name = f.name) : Holdings.GroupsNamed { h with groups := h.replaceGroup g } := by
  intro x hx
  rcases Holdings.mem_replaceGroup hx with rfl | hx
  · exact hname ▸ hh f hf
  · exact hh x hx

/-- **Every change keeps the names.** -/
theorem Change.groupsNamed {o : Operation} {r : o.Result} (hc : Change refusal s t h o r h')
    (hh : h.GroupsNamed) : h'.GroupsNamed := by
  cases hc with
  | createGroup named fresh shown =>
    intro g hg
    rcases List.mem_append.1 hg with hg | hg
    · exact hh g hg
    · obtain rfl := List.mem_singleton.1 hg
      exact named
  | updateGroup found live shown => exact hh.replaceGroup (Holdings.group?_eq_some_imp found).1 rfl
  | deleteGroup found live shown => exact hh.replaceGroup (Holdings.group?_eq_some_imp found).1 rfl
  | _ => exact hh

/-- **What is reached from nothing keeps linked holdings, with groups that have names.** -/
theorem Run.linked_named {svc : Service} {steps : List Step} (hrun : Run svc .initial steps t) :
    ∃ h, t.Keeps h ∧ h.IsLinked ∧ h.GroupsNamed :=
  hrun.keeps_of (I := fun h => h.IsLinked ∧ h.GroupsNamed) State.keeps_initial
    ⟨Holdings.isLinked_empty, fun _ hg => absurd hg List.not_mem_nil⟩
    fun _ _ _ _ _ _ hs hc hh => ⟨hc.isLinked hs hh.1, hc.groupsNamed hh.2⟩

end Service
end Gatehouse
