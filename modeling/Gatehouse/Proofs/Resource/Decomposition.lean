import Gatehouse.Proofs.Resource.Forms

/-!
# An address is its parts

A text is an address exactly if it can be put together from the parts that are read off it, so nothing of
it is lost and it can be taken apart in no other way.

1. **Images** (`imageForm_eq_some`).  The scheme of the web is optional, and a name may hold anything but an
   `@`, so `https://` could be read as a part of the name.  It is, only where it is the whole of the name.
2. **Packages** (`findSome?_byScheme`).  What the first eight entries of the table read is what one of them
   reads, because a text starts with one scheme only.
3. **Together** (`ofText?_decomposes`).  An image is what no scheme takes.
-/

namespace Gatehouse.Resource

open Gatehouse.Text

variable {cs rest name digits : List Char}

/-! ## Images -/

/-- The schemes of the web, which may stand before an image. -/
def webSchemes : List String := ["https://", "http://"]

/-- The name and the digits of an image, with a scheme of the web before the name or without one.  A name
that is there without one does not start with one either, unless it is nothing else. -/
inductive IsImage : List Char → List Char → List Char → Prop
  | web {scheme : String} {cs name digits : List Char} (hscheme : scheme ∈ webSchemes)
      (h : IsDigest cs name digits) (hname : name ≠ []) : IsImage (scheme.toList ++ cs) name digits
  | bare {cs name digits : List Char} (h : IsDigest cs name digits) (hname : name ≠ [])
      (hweb : ∀ scheme ∈ webSchemes, scheme.toList <+: name → name = scheme.toList) : IsImage cs name digits

theorem at_notMem_webScheme : ∀ scheme ∈ webSchemes, '@' ∉ scheme.toList := by decide +kernel

/-- What is left behind a scheme of the web. -/
theorem dropWeb_eq_some :
    (dropStart "https://" cs <|> dropStart "http://" cs) = some rest ↔
      ∃ scheme ∈ webSchemes, cs = scheme.toList ++ rest := by
  simp only [webSchemes, List.mem_cons, List.not_mem_nil, or_false, exists_eq_or_imp, exists_eq_left]
  rw [Option.orElse_eq_orElse, Option.orElse_eq_or, Option.or_eq_some_iff, dropStart_eq_some_iff,
    dropStart_eq_some_iff]
  constructor
  · rintro (h | ⟨-, h⟩)
    · exact .inl h
    · exact .inr h
  · rintro (h | rfl)
    · exact .inl h
    · exact .inr ⟨dropStart_other (by decide) (by decide) (by decide), rfl⟩

/-- What is read behind a scheme of the web. -/
theorem dropWeb_bind_eq_some {p : Parts} :
    (dropStart "https://" cs <|> dropStart "http://" cs).bind digestForm = some p ↔
      ∃ scheme ∈ webSchemes, ∃ rest, cs = scheme.toList ++ rest ∧ IsDigest rest p.1 p.2 ∧ p.1 ≠ [] := by
  simp only [Option.bind_eq_some_iff, dropWeb_eq_some]
  constructor
  · rintro ⟨rest, ⟨scheme, hscheme, rfl⟩, h⟩
    exact ⟨scheme, hscheme, rest, rfl, digestForm_eq_some.1 h⟩
  · rintro ⟨scheme, hscheme, rest, rfl, h⟩
    exact ⟨rest, ⟨scheme, hscheme, rfl⟩, digestForm_eq_some.2 h⟩

/-- A digest has one name. -/
theorem IsDigest.name_unique {name' digits' : List Char} (h : IsDigest cs name digits)
    (h' : IsDigest cs name' digits') : name = name' := by
  have hsame := (cut_eq_some_iff.2 ⟨h.eq, h.at_notMem⟩).symm.trans
    (cut_eq_some_iff.2 ⟨h'.eq, h'.at_notMem⟩)
  exact (Prod.mk.inj (Option.some.inj hsame)).1

/-- **An image in its parts.** -/
theorem imageForm_eq_some : imageForm cs = some (name, digits) ↔ IsImage cs name digits := by
  rw [imageForm, Option.orElse_eq_orElse, Option.orElse_eq_or, Option.or_eq_some_iff, dropWeb_bind_eq_some,
    Option.eq_none_iff_forall_ne_some, digestForm_eq_some]
  constructor
  · rintro (⟨scheme, hscheme, rest, rfl, h, hname⟩ | ⟨hnone, h, hname⟩)
    · exact .web hscheme h hname
    · refine .bare h hname fun scheme hscheme hstart => ?_
      obtain ⟨more, rfl⟩ := hstart
      -- what follows the scheme is a digest too, so only an empty name keeps it from being read
      have hcs : cs = scheme.toList ++ (more ++ '@' :: ("sha256:".toList ++ digits)) := by
        rw [h.eq, List.append_assoc]
      obtain ⟨left, hleft, hmore⟩ :=
        (isDigest_append_iff (at_notMem_webScheme scheme hscheme)).1 (hcs ▸ h)
      obtain rfl := List.append_cancel_left hleft
      by_cases hempty : more = []
      · rw [hempty, List.append_nil]
      · exact absurd (dropWeb_bind_eq_some.2 ⟨scheme, hscheme, _, hcs, hmore, hempty⟩) (hnone (more, digits))
  · intro h
    cases h with
    | web hscheme h hname => exact .inl ⟨_, hscheme, _, rfl, h, hname⟩
    | bare h hname hweb =>
      refine .inr ⟨fun p hp => ?_, h, hname⟩
      obtain ⟨scheme, hscheme, rest, rfl, hp, hne⟩ := dropWeb_bind_eq_some.1 hp
      have hwhole : IsDigest (scheme.toList ++ rest) (scheme.toList ++ p.1) p.2 :=
        (isDigest_append_iff (at_notMem_webScheme scheme hscheme)).2 ⟨_, rfl, hp⟩
      obtain rfl := h.name_unique hwhole
      have hall := hweb scheme hscheme (List.prefix_append ..)
      exact hne (List.append_right_eq_self.1 hall)

/-! ## Packages -/

/-- The text is the scheme of a kind and the parts behind it, in the form of the kind. -/
def IsPackage (kind : ResourceType) (text : String) (name version : List Char) : Prop :=
  ∃ scheme tail : String, (kind, scheme) ∈ schemes ∧ text = scheme ++ tail ∧
    IsForm kind tail.toList name version

namespace ResourceUri

variable {text : String} {u : ResourceUri}

theorem byScheme_eq_some {kind : ResourceType} {scheme : String} (h : (kind, scheme) ∈ schemes) :
    byScheme text.toList (kind, scheme) = some u ↔
      u.resourceType = kind ∧ ∃ tail : String, text = scheme ++ tail ∧
        IsForm kind tail.toList u.name.toList u.version.toList := by
  simp only [byScheme, Option.map_eq_some_iff, Option.bind_eq_some_iff, ofParts_eq_iff]
  constructor
  · rintro ⟨p, ⟨tail, hdrop, hform⟩, hkind, rfl⟩
    refine ⟨hkind, String.ofList tail, dropStart_eq_some hdrop, ?_⟩
    rw [String.toList_ofList]
    exact (tailForm_eq_some h).1 hform
  · rintro ⟨hkind, tail, rfl, hform⟩
    refine ⟨_, ⟨tail.toList, dropStart_eq_some_iff.2 ?_, (tailForm_eq_some h).2 hform⟩, hkind, rfl⟩
    exact String.toList_append

/-- **A package in its parts.** -/
theorem findSome?_byScheme : schemes.findSome? (byScheme text.toList) = some u ↔
    IsPackage u.resourceType text u.name.toList u.version.toList := by
  constructor
  · intro h
    obtain ⟨⟨kind, scheme⟩, hmem, hread⟩ := List.exists_of_findSome?_eq_some h
    obtain ⟨rfl, tail, htext, hform⟩ := (byScheme_eq_some hmem).1 hread
    exact ⟨scheme, tail, hmem, htext, hform⟩
  · rintro ⟨scheme, tail, hmem, rfl, hform⟩
    have hown := (byScheme_eq_some hmem).2 ⟨rfl, tail, rfl, hform⟩
    rw [String.toList_append] at hown ⊢
    rw [findSome?_of_forall hmem (byScheme_other hmem)]
    exact hown

/-- What no scheme reads is no package. -/
theorem findSome?_byScheme_eq_none : schemes.findSome? (byScheme text.toList) = none ↔
    ∀ kind name version, ¬ IsPackage kind text name version := by
  rw [Option.eq_none_iff_forall_ne_some]
  constructor
  · intro h kind name version hpackage
    refine h ⟨String.ofList name, String.ofList version, kind⟩ (findSome?_byScheme.2 ?_)
    rwa [String.toList_ofList, String.toList_ofList]
  · intro h u hu
    exact h _ _ _ (findSome?_byScheme.1 hu)

/-- **A text is an address exactly if it is put together from its parts.**  For every text and every
address:

* an address of a kind with a scheme is the scheme with the parts behind it, in the form of the kind, and
  each text that is put together so is read as these parts and this kind;
* an image is a name and a digest, perhaps behind a scheme of the web, and each text that is put together
  so is read as these parts, unless it is a package. -/
theorem ofText?_decomposes (text : String) (u : ResourceUri) :
    ofText? text = some u ↔
      IsPackage u.resourceType text u.name.toList u.version.toList ∨
      (u.resourceType = .docker ∧ IsImage text.toList u.name.toList u.version.toList ∧
        ∀ kind name version, ¬ IsPackage kind text name version) := by
  have himage : (imageForm text.toList).map (ofParts .docker) = some u ↔
      u.resourceType = .docker ∧ IsImage text.toList u.name.toList u.version.toList := by
    simp only [Option.map_eq_some_iff, ofParts_eq_iff, ← imageForm_eq_some]
    constructor
    · rintro ⟨p, hp, hkind, rfl⟩
      exact ⟨hkind, hp⟩
    · rintro ⟨hkind, hp⟩
      exact ⟨_, hp, hkind, rfl⟩
  rw [ofText?_eq, Option.or_eq_some_iff, findSome?_byScheme, findSome?_byScheme_eq_none, himage]
  constructor
  · rintro (h | ⟨hnone, hkind, h⟩)
    · exact .inl h
    · exact .inr ⟨hkind, h, hnone⟩
  · rintro (h | ⟨hkind, h, hnone⟩)
    · exact .inl h
    · exact .inr ⟨hnone, hkind, h⟩

end ResourceUri
end Gatehouse.Resource
