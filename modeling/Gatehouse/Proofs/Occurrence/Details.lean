import Mathlib.Data.List.Forall2
import Gatehouse.Occurrence.Basic
import Gatehouse.Proofs.Json.Members

/-!
# What an occurrence keeps

An occurrence is read into the few members that the service looks at, and is written again for policies
to see.

1. **Beside the typed members** a record holds what was written: the members of other names, in their
   order (`AgreeBeside`).  Reading puts them aside, and writing puts them last.
2. **Levels.**  This goes for the occurrence, its resource, its build and the provenance of the build
   (`levels`).  A level that is absent, or `null`, has no members on either side.
3. **Kinds.**  A name that is known is written as it was read, and any other leaves the kind unspecified.

An artifact holds its typed members only, so it is none of the levels.
-/

namespace Gatehouse

open Json

/-- Both are objects, and besides the members of the given names they have the same ones. -/
def Json.AgreeBeside (names : List String) (a b : Json) : Prop :=
  ∃ as bs, a = .object as ∧ b = .object bs ∧ membersExcept names as = membersExcept names bs

theorem Json.AgreeBeside.lookup?_eq {names : List String} {name : String} {a b : Json}
    (h : AgreeBeside names a b) (hname : name ∉ names) : lookup? [name] a = lookup? [name] b := by
  obtain ⟨as, bs, rfl, rfl, hsame⟩ := h
  rw [lookup?_single, lookup?_single, ← member?_membersExcept hname, hsame, member?_membersExcept hname]

namespace Occurrence

variable {value : Json}

/-- **The members that are put aside make up for what is not typed.** -/
theorem agreeBeside_of_others {names : List String} {typed others : List (String × Json)}
    (h : others? names value = some others) (htyped : ∀ m ∈ typed, m.1 ∈ names) :
    AgreeBeside names (.object (typed ++ others)) value := by
  cases value with
  | object members =>
    obtain rfl : membersExcept names members = others := Option.some.inj h
    have hnone : membersExcept names typed = [] :=
      List.filter_eq_nil_iff.2 fun m hm => by simp [htyped m hm]
    have htwice : membersExcept names (membersExcept names members) = membersExcept names members := by
      simp [membersExcept]
    have happend : membersExcept names (typed ++ membersExcept names members) =
        membersExcept names typed ++ membersExcept names (membersExcept names members) :=
      List.filter_append ..
    exact ⟨_, members, rfl, rfl, by rw [happend, hnone, htwice, List.nil_append]⟩
  | _ => contradiction

theorem member?_others {names : List String} {others : List (String × Json)} {name : String}
    (h : others? names value = some others) (hname : name ∈ names) : member? name others = none := by
  cases value with
  | object members =>
    obtain rfl : membersExcept names members = others := Option.some.inj h
    exact member?_membersExcept_of_mem hname
  | _ => contradiction

/-! ## Kinds -/

theorem NoteKind.name_ofName (text : String) :
    (ofName text).name = if text ∈ all.map name then text else unspecified.name := by
  unfold ofName
  cases h : all.find? fun k => k.name = text with
  | none =>
    have hnone : text ∉ all.map name := fun hmem => by
      obtain ⟨k, hk, hname⟩ := List.mem_map.1 hmem
      exact absurd (decide_eq_true hname) (List.find?_eq_none.1 h k hk)
    rw [if_neg hnone]
    rfl
  | some k =>
    have hname : k.name = text := by simpa using List.find?_some h
    have hmem : text ∈ all.map name := List.mem_map.2 ⟨k, List.mem_of_find?_eq_some h, hname⟩
    rw [if_pos hmem]
    exact hname

/-! ## Levels -/

theorem Resource.agreeBeside {r : Resource} (h : Resource.ofJson? value = some r) :
    AgreeBeside ["uri"] r.toJson value := by
  simp only [Resource.ofJson?, Option.bind_eq_bind, Option.bind_eq_some_iff] at h
  obtain ⟨_, -, uri, -, others, hothers, hr⟩ := h
  cases hr
  show AgreeBeside ["uri"] (.object ([("uri", .string uri)] ++ others)) value
  exact agreeBeside_of_others hothers (by simp)

theorem Provenance.agreeBeside {p : Provenance} (h : Provenance.ofJson? value = some p) :
    AgreeBeside Provenance.names p.toJson value := by
  simp only [Provenance.ofJson?, Option.bind_eq_bind, Option.bind_eq_some_iff] at h
  obtain ⟨_, -, id, -, artifacts, -, others, hothers, hp⟩ := h
  cases hp
  rw [Provenance.toJson, ← List.singleton_append, ← List.append_assoc]
  refine agreeBeside_of_others hothers fun m hm => ?_
  rcases List.mem_append.1 hm with hid | hartifacts
  · simp [name_of_mem_memberUnless hid, Provenance.names]
  · simp [List.mem_singleton.1 hartifacts, Provenance.names]

theorem Build.agreeBeside {b : Build} (h : Build.ofJson? value = some b) :
    AgreeBeside ["provenance"] b.toJson value := by
  simp only [Build.ofJson?, Option.bind_eq_bind, Option.bind_eq_some_iff] at h
  obtain ⟨_, -, provenance?, -, others, hothers, hb⟩ := h
  cases hb
  exact agreeBeside_of_others hothers fun m hm => by simp [name_of_mem_memberOfSome hm]

/-- The members of other names are the same ones in both places, or there are none in either. -/
def AgreeAt (names : List String) (a? b? : Option Json) : Prop :=
  ∀ name, name ∉ names → a?.bind (lookup? [name]) = b?.bind (lookup? [name])

theorem agreeAt_of_optional {α : Type} {read : Json → Option α} {write : α → Json} {names : List String}
    {r : Record} {name : String} {a? : Option α} (h : r.optional name read = some a?)
    (hread : ∀ value a, read value = some a → AgreeBeside names (write a) value) :
    AgreeAt names (a?.map write) (r name) := by
  intro other hother
  rcases Record.eq_of_optional h with ⟨rfl, hnone | hnull⟩ | ⟨value, a, hvalue, ha, rfl⟩
  · rw [hnone]
    rfl
  · rw [hnull]
    rfl
  · rw [hvalue]
    exact (hread value a ha).lookup?_eq hother

theorem Build.agreeAt_provenance {b : Build} (h : Build.ofJson? value = some b) :
    AgreeAt Provenance.names (lookup? ["provenance"] b.toJson) (lookup? ["provenance"] value) := by
  simp only [Build.ofJson?, Option.bind_eq_bind, Option.bind_eq_some_iff] at h
  obtain ⟨r, hr, provenance?, hprovenance, others, hothers, hb⟩ := h
  cases hb
  rw [Build.toJson, lookup?_single, member?_append, member?_memberOfSome,
    member?_others hothers (by simp), Option.or_none, ← Record.eq_of_ofObject? hr]
  exact agreeAt_of_optional hprovenance fun _ _ => Provenance.agreeBeside

/-! ## The whole occurrence -/

/-- The levels of an occurrence: where each stands, and the names of its typed members. -/
def levels : List (List String × List String) :=
  [([], memberNames), (["resource"], ["uri"]), (["build"], ["provenance"]),
    (["build", "provenance"], Provenance.names)]

/-- What is read of an occurrence, and where. -/
structure Reads (value : Json) (o : Occurrence) (r : Record) : Prop where
  record : Record.ofObject? memberNames value = some r
  resource : r.defaulted "resource" Resource.ofJson? Resource.empty = some o.resource
  kind : r.defaulted "kind" NoteKind.ofJson? .unspecified = some o.kind
  build : r.optional "build" Build.ofJson? = some o.build?
  details : others? memberNames value = some o.details

theorem exists_reads {o : Occurrence} (h : ofJson? value = some o) : ∃ r, Reads value o r := by
  simp only [ofJson?, Option.bind_eq_bind, Option.bind_eq_some_iff] at h
  obtain ⟨r, hr, name, -, resource, hresource, noteName, -, kind, hkind, create, -, update, -,
    build, hbuild, details, hdetails, ho⟩ := h
  cases ho
  exact ⟨r, hr, hresource, hkind, hbuild, hdetails⟩

namespace Reads

variable {o : Occurrence} {r : Record}

theorem agreeBeside (h : Reads value o r) : AgreeBeside memberNames o.toJson value := by
  refine agreeBeside_of_others h.details fun m hm => ?_
  simp only [List.mem_append] at hm
  rcases hm with ((hm | hm) | hm) | hm
  · simp only [List.mem_cons, List.not_mem_nil, or_false] at hm
    rcases hm with rfl | rfl | rfl | rfl <;> simp [memberNames]
  all_goals simp [name_of_mem_memberOfSome hm, memberNames]

theorem lookup?_build (h : Reads value o r) : lookup? ["build"] o.toJson = o.build?.map Build.toJson := by
  have hcreate : member? "build" (memberOfSome "createTime" .string o.createTime?) = none :=
    member?_memberOfSome_of_ne (by decide)
  have hupdate : member? "build" (memberOfSome "updateTime" .string o.updateTime?) = none :=
    member?_memberOfSome_of_ne (by decide)
  have hdetails : member? "build" o.details = none := member?_others h.details (by decide)
  rw [toJson, lookup?_single, member?_append, member?_append, member?_append, member?_append,
    member?_memberOfSome, hcreate, hupdate, hdetails, Option.or_none, Option.or_none]
  simp [member?]

theorem agreeAt_resource (h : Reads value o r) :
    AgreeAt ["uri"] (lookup? ["resource"] o.toJson) (lookup? ["resource"] value) := by
  intro name hname
  rw [← Record.eq_of_ofObject? h.record]
  show lookup? [name] o.resource.toJson = (r "resource").bind (lookup? [name])
  rcases Record.eq_of_defaulted h.resource with ⟨hnone, hempty⟩ | ⟨v, hv, hread⟩
  · have huri : "uri" ≠ name := fun huri => hname (huri ▸ List.mem_singleton_self _)
    rw [hnone, hempty, Resource.toJson, lookup?_single, member?, if_neg huri]
    rfl
  · rw [hv]
    exact (Resource.agreeBeside hread).lookup?_eq hname

theorem agreeAt_build (h : Reads value o r) :
    AgreeAt ["provenance"] (lookup? ["build"] o.toJson) (lookup? ["build"] value) := by
  rw [h.lookup?_build, ← Record.eq_of_ofObject? h.record]
  exact agreeAt_of_optional h.build fun _ _ => Build.agreeBeside

theorem agreeAt_provenance (h : Reads value o r) :
    AgreeAt Provenance.names (lookup? ["build", "provenance"] o.toJson)
      (lookup? ["build", "provenance"] value) := by
  have hpath : ["build", "provenance"] = ["build"] ++ ["provenance"] := rfl
  rw [hpath, lookup?_append, lookup?_append, h.lookup?_build, ← Record.eq_of_ofObject? h.record]
  rcases Record.eq_of_optional h.build with ⟨hnone, hv | hv⟩ | ⟨v, b, hv, hread, hb⟩
  · rw [hnone, hv]
    exact fun _ _ => rfl
  · rw [hnone, hv]
    exact fun _ _ => rfl
  · rw [hb, hv]
    exact Build.agreeAt_provenance hread

theorem lookup?_kind (h : Reads value o r) {text : String}
    (hkind : lookup? ["kind"] value = some (.string text)) :
    lookup? ["kind"] o.toJson = some (.string (NoteKind.ofName text).name) := by
  rw [← Record.eq_of_ofObject? h.record] at hkind
  have hread := h.kind
  rw [Record.defaulted, hkind] at hread
  rw [Option.some.inj hread]
  rfl

end Reads

/-- **What is not typed is written as it was read.**  So it is at every level that is kept as it was, and with
the kind if it is one of the known ones. -/
theorem toJson_keeps_untyped {o : Occurrence} (h : ofJson? value = some o) :
    (∃ members, o.toJson = .object members) ∧
      (∀ text, lookup? ["kind"] value = some (.string text) → lookup? ["kind"] o.toJson =
        some (.string (if text ∈ NoteKind.all.map NoteKind.name then text else "NOTE_KIND_UNSPECIFIED"))) ∧
      ∀ level ∈ levels, ∀ name ∉ level.2,
        lookup? (level.1 ++ [name]) o.toJson = lookup? (level.1 ++ [name]) value := by
  obtain ⟨r, hr⟩ := exists_reads h
  refine ⟨⟨_, rfl⟩, fun text hkind => ?_, fun level hlevel name hname => ?_⟩
  · rw [hr.lookup?_kind hkind, NoteKind.name_ofName]
    rfl
  · rw [lookup?_append, lookup?_append]
    simp only [levels, List.mem_cons, List.not_mem_nil, or_false] at hlevel
    rcases hlevel with rfl | rfl | rfl | rfl
    · exact hr.agreeBeside.lookup?_eq hname
    · exact hr.agreeAt_resource name hname
    · exact hr.agreeAt_build name hname
    · exact hr.agreeAt_provenance name hname

/-- A build with something untyped at each level. -/
def published : Json :=
  .object [("kind", .string "BUILD"), ("envelope", .object [("payload", .string "x")]),
    ("resource", .object [("uri", .string "git://github.com/rode/demo@abc"), ("digest", .array [])]),
    ("build", .object [("provenanceBytes", .string "e30="),
      ("provenance", .object [("sourceProvenance", .object [("context", .null)])])])]

theorem toJson_keeps_untyped_published : ∃ o, ofJson? published = some o ∧
    lookup? ["kind"] o.toJson = some (.string "BUILD") ∧
      ∀ level ∈ levels, ∀ name ∉ level.2,
        lookup? (level.1 ++ [name]) o.toJson = lookup? (level.1 ++ [name]) published := by
  have h : ∃ o, ofJson? published = some o := ⟨_, rfl⟩
  obtain ⟨o, ho⟩ := h
  obtain ⟨-, hkind, hlevels⟩ := toJson_keeps_untyped ho
  exact ⟨o, ho, hkind "BUILD" rfl, hlevels⟩

/-- A kind that is not known is not written as it was read, and what an artifact does not know is not
written at all. -/
theorem not_all_kept :
    (¬ ∀ value o, ofJson? value = some o → ∀ text, lookup? ["kind"] value = some (.string text) →
      lookup? ["kind"] o.toJson = some (.string text)) ∧
    ¬ ∀ value o, ofJson? value = some o → ∀ items,
      lookup? ["build", "provenance", "builtArtifacts"] value = some (.array items) →
        ∃ written, lookup? ["build", "provenance", "builtArtifacts"] o.toJson = some (.array written) ∧
          List.Forall₂ (fun a b => ∀ name ∉ ["id", "checksum", "names"], lookup? [name] a = lookup? [name] b)
            written items := by
  constructor
  · intro hkept
    have hkind := hkept (.object [("kind", .string "SPDX_FILE")]) _ rfl "SPDX_FILE" rfl
    exact absurd (Json.string.inj (Option.some.inj hkind)) (by decide)
  · intro hkept
    obtain ⟨written, hwritten, hsame⟩ := hkept (.object [("build", .object [("provenance",
      .object [("builtArtifacts", .array [.object [("id", .string "a"), ("size", .ofNat 3)]])])])]) _ rfl _ rfl
    obtain rfl := Json.array.inj (Option.some.inj hwritten)
    cases hsame with
    | cons hsize _ => cases hsize "size" (by decide)

end Occurrence
end Gatehouse
