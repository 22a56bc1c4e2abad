import Gatehouse.Resource.Uri

/-!
# The forms of addresses

The parser of addresses (`ResourceUri.ofText?`) takes a text apart by cuts and tests.  What it accepts
is said here without them: a form is a text put together from parts.

1. **Parts.**  A cut is undone by putting the separator back (`cut_eq_some_iff`), so each function of the
   table has a rule that writes what it reads (`IsForm`, `IsDigest`).
2. **One scheme.**  No scheme starts another (`not_prefix_of_mem`), so a text that starts with one of them
   is refused by every other entry of the table but the last.
3. **The last entry** has no scheme of its own, and its name may hold anything but an `@`.  A digest
   behind a scheme that refuses it is therefore an image whose name keeps the scheme
   (`ofText?_scheme_append`).
-/

namespace Gatehouse.Resource

open Gatehouse.Text

variable {cs tail name version : List Char} {kind : ResourceType} {scheme : String}

/-! ## Parts -/

theorem cut_eq_some_iff {separator : Char} {a b : List Char} :
    cut separator cs = some (a, b) ↔ cs = a ++ separator :: b ∧ separator ∉ a := by
  constructor
  · exact cut_eq_some
  · rintro ⟨rfl, h⟩
    exact cut_append b h

/-- A start without the separator stays with the first part. -/
theorem cut_append_left {separator : Char} {start : List Char} (h : separator ∉ start) :
    cut separator (start ++ cs) = (cut separator cs).map fun p => (start ++ p.1, p.2) := by
  induction start with
  | nil => simp
  | cons c start ih =>
    simp only [List.mem_cons, not_or] at h
    rw [List.cons_append, cut, if_neg (Ne.symm h.1), ih h.2, Option.map_map]
    rfl

theorem dropStart_eq_some_iff {start : String} {rest : List Char} :
    dropStart start cs = some rest ↔ cs = start.toList ++ rest := by
  unfold dropStart
  split
  · rename_i h
    obtain ⟨more, rfl⟩ := List.isPrefixOf_iff_prefix.1 h
    rw [← String.length_toList, List.drop_left, Option.some_inj, List.append_cancel_left_eq]
  · rename_i h
    constructor
    · intro hnone
      contradiction
    · rintro rfl
      exact absurd (List.isPrefixOf_iff_prefix.2 (List.prefix_append ..)) h

theorem onOneLine_eq_some {p q : Parts} :
    onOneLine p = some q ↔ p = q ∧ q.1 ≠ [] ∧ q.2 ≠ [] ∧ '\n' ∉ q.2 := by
  unfold onOneLine
  split
  · rename_i h
    simp only [Bool.or_eq_true, List.isEmpty_iff, List.contains_iff_mem] at h
    grind
  · rename_i h
    simp only [Bool.or_eq_true, List.isEmpty_iff, List.contains_iff_mem, not_or] at h
    grind

/-! ## Forms -/

/-- What comes after the scheme of a kind, put together from its parts. -/
inductive IsForm : ResourceType → List Char → List Char → List Char → Prop
  | distribution {kind : ResourceType} {dist arch name version : List Char}
      (hkind : kind = .debian ∨ kind = .rpm) (hdist : ':' ∉ dist) (harch : ':' ∉ arch)
      (hcolon : ':' ∉ name) (hname : name ≠ []) (hversion : version ≠ []) (hline : '\n' ∉ version) :
      IsForm kind (dist ++ ':' :: (arch ++ ':' :: (name ++ ':' :: version))) name version
  | commit {name version : List Char} (hat : '@' ∉ name) (hname : name ≠ []) (hversion : version ≠ [])
      (hmore : '@' ∉ version) : IsForm .git (name ++ '@' :: version) name version
  | coordinate {group artifact version : List Char} (hgroup : ':' ∉ group) (hartifact : ':' ∉ artifact)
      (hgroup' : group ≠ []) (hartifact' : artifact ≠ []) (hversion : version ≠ [])
      (hmore : ':' ∉ version) :
      IsForm .maven (group ++ ':' :: (artifact ++ ':' :: version)) (group ++ ':' :: artifact) version
  | package {kind : ResourceType} {name version : List Char}
      (hkind : kind = .npm ∨ kind = .nuget ∨ kind = .pip) (hcolon : ':' ∉ name) (hname : name ≠ [])
      (hversion : version ≠ []) (hline : '\n' ∉ version) :
      IsForm kind (name ++ ':' :: version) name version
  | generic {name version : List Char} (hat : '@' ∉ name) (hname : name ≠ []) (hversion : version ≠ [])
      (hline : '\n' ∉ version) : IsForm .generic (name ++ '@' :: version) name version

/-- A name, perhaps none, with the digits of a digest. -/
structure IsDigest (cs name digits : List Char) : Prop where
  eq : cs = name ++ '@' :: ("sha256:".toList ++ digits)
  at_notMem : '@' ∉ name
  ne_nil : digits ≠ []
  hex : ∀ c ∈ digits, (hexValue? c).isSome

theorem distributionForm_eq_some (hkind : kind = .debian ∨ kind = .rpm) :
    distributionForm tail = some (name, version) ↔ IsForm kind tail name version := by
  constructor
  · intro h
    simp only [distributionForm, colonForm, Option.bind_eq_bind, Option.bind_eq_some_iff, Prod.exists,
      cut_eq_some_iff, onOneLine_eq_some] at h
    obtain ⟨dist, _, ⟨rfl, hdist⟩, arch, _, ⟨rfl, harch⟩, name', version', ⟨rfl, hname⟩, heq, hparts⟩ := h
    obtain ⟨rfl, rfl⟩ := Prod.mk.injEq .. ▸ heq
    exact .distribution hkind hdist harch hname hparts.1 hparts.2.1 hparts.2.2
  · intro h
    cases h with
    | distribution _ hdist harch hcolon hname hversion hline =>
      simp [distributionForm, colonForm, cut_append _ hdist, cut_append _ harch, cut_append _ hcolon,
        onOneLine_eq_some, hname, hversion, hline]
    | package hkind' => rcases hkind with rfl | rfl <;> simp at hkind'
    | _ => simp at hkind

theorem colonForm_eq_some (hkind : kind = .npm ∨ kind = .nuget ∨ kind = .pip) :
    colonForm tail = some (name, version) ↔ IsForm kind tail name version := by
  constructor
  · intro h
    simp only [colonForm, Option.bind_eq_some_iff, Prod.exists, cut_eq_some_iff, onOneLine_eq_some] at h
    obtain ⟨name', version', ⟨rfl, hcolon⟩, heq, hparts⟩ := h
    obtain ⟨rfl, rfl⟩ := Prod.mk.injEq .. ▸ heq
    exact .package hkind hcolon hparts.1 hparts.2.1 hparts.2.2
  · intro h
    cases h with
    | package _ hcolon hname hversion hline =>
      simp [colonForm, cut_append _ hcolon, onOneLine_eq_some, hname, hversion, hline]
    | distribution hkind' => rcases hkind with rfl | rfl | rfl <;> simp at hkind'
    | _ => simp at hkind

theorem atForm_eq_some : atForm tail = some (name, version) ↔ IsForm .generic tail name version := by
  constructor
  · intro h
    simp only [atForm, Option.bind_eq_some_iff, Prod.exists, cut_eq_some_iff, onOneLine_eq_some] at h
    obtain ⟨name', version', ⟨rfl, hat⟩, heq, hparts⟩ := h
    obtain ⟨rfl, rfl⟩ := Prod.mk.injEq .. ▸ heq
    exact .generic hat hparts.1 hparts.2.1 hparts.2.2
  · intro h
    cases h with
    | generic hat hname hversion hline =>
      simp [atForm, cut_append _ hat, onOneLine_eq_some, hname, hversion, hline]
    | _ => simp_all

theorem commitForm_eq_some : commitForm tail = some (name, version) ↔ IsForm .git tail name version := by
  constructor
  · intro h
    simp only [commitForm, Option.bind_eq_bind, Option.bind_eq_some_iff, Prod.exists, cut_eq_some_iff] at h
    obtain ⟨name', version', ⟨rfl, hat⟩, h⟩ := h
    split at h
    · contradiction
    · rename_i htests
      obtain ⟨rfl, rfl⟩ := Prod.mk.injEq .. ▸ Option.some.inj h
      simp only [Bool.or_eq_true, List.isEmpty_iff, List.contains_iff_mem, not_or] at htests
      exact .commit hat htests.1.1 htests.1.2 htests.2
  · intro h
    cases h with
    | commit hat hname hversion hmore => simp [commitForm, cut_append _ hat, hname, hversion, hmore]
    | _ => simp_all

theorem coordinateForm_eq_some :
    coordinateForm tail = some (name, version) ↔ IsForm .maven tail name version := by
  constructor
  · intro h
    simp only [coordinateForm, Option.bind_eq_bind, Option.bind_eq_some_iff, Prod.exists,
      cut_eq_some_iff] at h
    obtain ⟨group, _, ⟨rfl, hgroup⟩, artifact, version', ⟨rfl, hartifact⟩, h⟩ := h
    split at h
    · contradiction
    · rename_i htests
      obtain ⟨rfl, rfl⟩ := Prod.mk.injEq .. ▸ Option.some.inj h
      simp only [Bool.or_eq_true, List.isEmpty_iff, List.contains_iff_mem, not_or] at htests
      exact .coordinate hgroup hartifact htests.1.1.1 htests.1.1.2 htests.1.2 htests.2
  · intro h
    cases h with
    | coordinate hgroup hartifact hgroup' hartifact' hversion hmore =>
      simp [coordinateForm, cut_append _ hgroup, cut_append _ hartifact, hgroup', hartifact', hversion, hmore]
    | _ => simp_all

theorem digestForm_eq_some :
    digestForm cs = some (name, version) ↔ IsDigest cs name version ∧ name ≠ [] := by
  constructor
  · intro h
    simp only [digestForm, Option.bind_eq_bind, Option.bind_eq_some_iff, Prod.exists, cut_eq_some_iff,
      dropStart_eq_some_iff] at h
    obtain ⟨name', _, ⟨rfl, hat⟩, digits, rfl, h⟩ := h
    split at h
    · contradiction
    · rename_i htests
      obtain ⟨rfl, rfl⟩ := Prod.mk.injEq .. ▸ Option.some.inj h
      simp only [Bool.or_eq_true, List.isEmpty_iff, not_or, Bool.not_eq_true', Bool.not_eq_false,
        List.all_eq_true] at htests
      exact ⟨⟨rfl, hat, htests.1.2, htests.2⟩, htests.1.1⟩
  · rintro ⟨⟨rfl, hat, hne, hhex⟩, hname⟩
    have hdrop : dropStart "sha256:" ("sha256:".toList ++ version) = some version :=
      dropStart_eq_some_iff.2 rfl
    simp only [digestForm, cut_append _ hat, hdrop, Option.bind_eq_bind, Option.bind_some]
    rw [if_neg]
    simp only [Bool.or_eq_true, List.isEmpty_iff, not_or, Bool.not_eq_true', Bool.not_eq_false,
      List.all_eq_true]
    exact ⟨⟨hname, hne⟩, hhex⟩

/-- A digest behind a start without an `@` is one whose name has the start. -/
theorem isDigest_append_iff {start : List Char} (h : '@' ∉ start) :
    IsDigest (start ++ cs) name version ↔ ∃ rest, name = start ++ rest ∧ IsDigest cs rest version := by
  constructor
  · rintro ⟨heq, hat, hne, hhex⟩
    have hcut := cut_append_left h ▸ cut_eq_some_iff.2 ⟨heq, hat⟩
    obtain ⟨⟨rest, more⟩, hrest, hp⟩ := Option.map_eq_some_iff.1 hcut
    obtain ⟨rfl, rfl⟩ := Prod.mk.injEq .. ▸ hp
    obtain ⟨hcs, hrest⟩ := cut_eq_some hrest
    exact ⟨rest, rfl, hcs, hrest, hne, hhex⟩
  · rintro ⟨rest, rfl, rfl, hat, hne, hhex⟩
    refine ⟨by rw [List.append_assoc], ?_, hne, hhex⟩
    rw [List.mem_append, not_or]
    exact ⟨h, hat⟩

theorem digestForm_append {start : List Char} (hat : '@' ∉ start) (hne : start ≠ []) :
    digestForm (start ++ cs) = some (name, version) ↔
      ∃ rest, name = start ++ rest ∧ IsDigest cs rest version := by
  rw [digestForm_eq_some, isDigest_append_iff hat]
  constructor
  · exact And.left
  · rintro ⟨rest, rfl, hdigest⟩
    exact ⟨⟨rest, rfl, hdigest⟩, by simp [hne]⟩

/-! ## Schemes -/

/-- The kinds that have a scheme. -/
def schemes : List (ResourceType × String) :=
  [(.debian, "deb://"), (.git, "git://"), (.maven, "gav://"), (.npm, "npm://"), (.nuget, "nuget://"),
    (.pip, "pip://"), (.rpm, "rpm://"), (.generic, "generic://")]

/-- How what comes after the scheme is read. -/
def tailForm : ResourceType → List Char → Option Parts
  | .debian | .rpm => distributionForm
  | .git => commitForm
  | .maven => coordinateForm
  | .npm | .nuget | .pip => colonForm
  | .generic => atForm
  | .docker => imageForm

theorem tailForm_eq_some (h : (kind, scheme) ∈ schemes) :
    tailForm kind tail = some (name, version) ↔ IsForm kind tail name version := by
  cases kind with
  | debian => exact distributionForm_eq_some (.inl rfl)
  | rpm => exact distributionForm_eq_some (.inr rfl)
  | git => exact commitForm_eq_some
  | maven => exact coordinateForm_eq_some
  | npm => exact colonForm_eq_some (.inl rfl)
  | nuget => exact colonForm_eq_some (.inr (.inl rfl))
  | pip => exact colonForm_eq_some (.inr (.inr rfl))
  | generic => exact atForm_eq_some
  | docker => simp [schemes] at h

/-- The starts of addresses: the schemes, and those of the web. -/
def starts : List String := schemes.map Prod.snd ++ ["https://", "http://"]

theorem mem_starts (h : (kind, scheme) ∈ schemes) : scheme ∈ starts :=
  List.mem_append_left _ (List.mem_map.2 ⟨_, h, rfl⟩)

/-- No start is the start of another. -/
theorem not_prefix_of_mem :
    ∀ s ∈ starts, ∀ t ∈ starts, s ≠ t → ¬ s.toList <+: t.toList := by decide +kernel

theorem at_notMem_scheme : ∀ p ∈ schemes, '@' ∉ p.2.toList := by decide +kernel

theorem scheme_ne_nil : ∀ p ∈ schemes, p.2.toList ≠ [] := by decide +kernel

/-- A text starts with one of the starts only. -/
theorem dropStart_other {s t : String} (hs : s ∈ starts) (ht : t ∈ starts) (hne : s ≠ t) :
    dropStart s (t.toList ++ tail) = none := by
  rw [dropStart, if_neg]
  intro h
  have hprefix := List.isPrefixOf_iff_prefix.1 h
  rcases List.prefix_or_prefix_of_prefix hprefix (List.prefix_append t.toList tail) with h | h
  · exact not_prefix_of_mem s hs t ht hne h
  · exact not_prefix_of_mem t ht s hs hne.symm h

/-- The first result is that of the only element that has one. -/
theorem findSome?_of_forall {α β : Type} {f : α → Option β} {l : List α} {x : α} (hx : x ∈ l)
    (h : ∀ y ∈ l, y ≠ x → f y = none) : l.findSome? f = f x := by
  cases hfind : l.findSome? f with
  | none => exact (List.findSome?_eq_none_iff.1 hfind x hx).symm
  | some b =>
    obtain ⟨y, hy, hb⟩ := List.exists_of_findSome?_eq_some hfind
    by_cases hyx : y = x
    · rw [← hyx, hb]
    · simp [h y hy hyx] at hb

theorem scheme_injective : ∀ p ∈ schemes, ∀ q ∈ schemes, p.2 = q.2 → p = q := by decide +kernel

/-- Behind a scheme only its own form and that of digests are tried. -/
theorem imageForm_scheme (h : (kind, scheme) ∈ schemes) :
    imageForm (scheme.toList ++ tail) = digestForm (scheme.toList ++ tail) := by
  have hhttps : dropStart "https://" (scheme.toList ++ tail) = none :=
    dropStart_other (by decide) (mem_starts h) (by rintro rfl; revert h; cases kind <;> decide)
  have hhttp : dropStart "http://" (scheme.toList ++ tail) = none :=
    dropStart_other (by decide) (mem_starts h) (by rintro rfl; revert h; cases kind <;> decide)
  rw [imageForm, hhttps, hhttp]
  rfl

namespace ResourceUri

/-- The address of a kind with these parts. -/
def ofParts (kind : ResourceType) (p : Parts) : ResourceUri :=
  ⟨String.ofList p.1, String.ofList p.2, kind⟩

theorem ofParts_eq_iff {p : Parts} {u : ResourceUri} :
    ofParts kind p = u ↔ u.resourceType = kind ∧ p = (u.name.toList, u.version.toList) := by
  obtain ⟨name, version, kind'⟩ := u
  obtain ⟨a, b⟩ := p
  rw [ofParts, ResourceUri.mk.injEq, Prod.mk.injEq, ← String.toList_inj, ← String.toList_inj,
    String.toList_ofList, String.toList_ofList]
  exact ⟨fun ⟨ha, hb, hkind⟩ => ⟨hkind.symm, ha, hb⟩, fun ⟨hkind, ha, hb⟩ => ⟨ha, hb, hkind.symm⟩⟩

/-- What a text is by the scheme of one kind. -/
def byScheme (cs : List Char) (p : ResourceType × String) : Option ResourceUri :=
  ((dropStart p.2 cs).bind (tailForm p.1)).map (ofParts p.1)

theorem ofText?_eq (uri : String) :
    ofText? uri =
      (schemes.findSome? (byScheme uri.toList)).or ((imageForm uri.toList).map (ofParts .docker)) := by
  have hforms : forms = schemes.map (fun p => (p.1, fun cs => (dropStart p.2 cs).bind (tailForm p.1))) ++
      [(.docker, imageForm)] := rfl
  rw [ofText?, hforms, List.findSome?_append, List.findSome?_map, List.findSome?_singleton]
  rfl

/-- Of the kinds with a scheme only one can read a text. -/
theorem byScheme_other (h : (kind, scheme) ∈ schemes) :
    ∀ p ∈ schemes, p ≠ (kind, scheme) → byScheme (scheme.toList ++ tail) p = none := by
  intro p hp hne
  have hscheme : p.2 ≠ scheme := fun heq => hne (scheme_injective p hp _ h heq)
  rw [byScheme, dropStart_other (mem_starts hp) (mem_starts h) hscheme]
  rfl

/-- The scheme of a text leaves two ways to read it. -/
theorem ofText?_append (h : (kind, scheme) ∈ schemes) (tail : String) :
    ofText? (scheme ++ tail) =
      ((tailForm kind tail.toList).map (ofParts kind)).or
        ((digestForm (scheme.toList ++ tail.toList)).map (ofParts .docker)) := by
  have hown : dropStart scheme (scheme.toList ++ tail.toList) = some tail.toList :=
    dropStart_eq_some_iff.2 rfl
  rw [ofText?_eq, String.toList_append, findSome?_of_forall h (byScheme_other h), byScheme, hown, Option.bind_some,
    imageForm_scheme h]

/-- **What comes of a text that starts with a scheme.**  It is an address of the scheme's kind if what
follows has the form of the kind.  If not, a digest makes it an image, and the scheme is part of the
image's name. -/
theorem ofText?_scheme_append (h : (kind, scheme) ∈ schemes) (tail : String) (u : ResourceUri) :
    ofText? (scheme ++ tail) = some u ↔
      (u.resourceType = kind ∧ IsForm kind tail.toList u.name.toList u.version.toList) ∨
      (u.resourceType = .docker ∧ (∀ name version, ¬ IsForm kind tail.toList name version) ∧
        ∃ name, u.name = scheme ++ String.ofList name ∧ IsDigest tail.toList name u.version.toList) := by
  rw [ofText?_append h tail]
  cases hform : tailForm kind tail.toList with
  | some p =>
    have hp : IsForm kind tail.toList p.1 p.2 := (tailForm_eq_some h).1 hform
    rw [Option.map_some, Option.some_or, Option.some_inj, ofParts_eq_iff]
    constructor
    · rintro ⟨hkind, rfl⟩
      exact .inl ⟨hkind, hp⟩
    · rintro (⟨hkind, hu⟩ | ⟨-, hnone, -⟩)
      · exact ⟨hkind, Option.some.inj (hform.symm.trans ((tailForm_eq_some h).2 hu))⟩
      · exact absurd hp (hnone _ _)
  | none =>
    have hnone : ∀ name version, ¬ IsForm kind tail.toList name version := by
      intro name version hp
      simp [(tailForm_eq_some h).2 hp] at hform
    have hname (rest : List Char) :
        u.name.toList = scheme.toList ++ rest ↔ u.name = scheme ++ String.ofList rest := by
      rw [← String.toList_inj, String.toList_append, String.toList_ofList]
    have hdigest : (digestForm (scheme.toList ++ tail.toList)).map (ofParts .docker) = some u ↔
        u.resourceType = .docker ∧
          digestForm (scheme.toList ++ tail.toList) = some (u.name.toList, u.version.toList) := by
      simp only [Option.map_eq_some_iff, ofParts_eq_iff]
      grind
    rw [Option.map_none, Option.none_or, hdigest,
      digestForm_append (at_notMem_scheme _ h) (scheme_ne_nil _ h)]
    simp only [hname, hnone, and_false, false_or, not_false_iff, implies_true, true_and]

/-- A digest is a version behind the scheme that takes one, and an image behind a scheme that does not. -/
theorem ofText?_scheme_append_digest :
    ((.git, "git://") ∈ schemes ∧
      ofText? ("git://" ++ "foo@sha256:abc") = some ⟨"foo", "sha256:abc", .git⟩) ∧
    ((.debian, "deb://") ∈ schemes ∧
      ofText? ("deb://" ++ "foo@sha256:abc") = some ⟨"deb://foo", "abc", .docker⟩) := by
  have hgit : (.git, "git://") ∈ schemes := by decide
  have hdebian : (.debian, "deb://") ∈ schemes := by decide
  have hnone : ∀ name version, ¬ IsForm .debian "foo@sha256:abc".toList name version := by
    intro name version hform
    have hread := (tailForm_eq_some hdebian).2 hform
    rw [show tailForm .debian "foo@sha256:abc".toList = none from by decide] at hread
    contradiction
  have hdigest : IsDigest "foo@sha256:abc".toList "foo".toList "abc".toList :=
    ⟨by decide, by decide, by decide, List.all_eq_true.1 (by decide)⟩
  constructor
  · have hform : IsForm .git "foo@sha256:abc".toList "foo".toList "sha256:abc".toList :=
      (tailForm_eq_some hgit).1 (by decide)
    exact ⟨hgit, (ofText?_scheme_append hgit _ _).2 (.inl ⟨rfl, hform⟩)⟩
  · exact ⟨hdebian, (ofText?_scheme_append hdebian _ _).2
      (.inr ⟨rfl, hnone, "foo".toList, by decide, hdigest⟩)⟩

/-- **A scheme does not settle the kind.** -/
theorem not_forall_scheme_kind :
    ¬ ∀ kind scheme, (kind, scheme) ∈ schemes →
      ∀ (tail : String) (u : ResourceUri), ofText? (scheme ++ tail) = some u → u.resourceType = kind := by
  intro h
  have hkind := h .debian "deb://" (by decide) "foo@sha256:abc" ⟨"deb://foo", "abc", .docker⟩
    (by decide +kernel)
  contradiction

end ResourceUri
end Gatehouse.Resource
