import Gatehouse.Occurrence.Listing
import Gatehouse.Proofs.Json.Members
import Gatehouse.Proofs.Json.Record

/-!
# Occurrences read back

An occurrence is read leniently and written with less freedom: what was missing is written with its default
or not at all.  So a value and what is written of it may differ, and yet say the same.

1. **Parts.**  A record is written as its typed members and, behind them, the ones that were put aside.
   Reading tells the two apart again, as long as none of the latter has a typed name (`Apart`).
2. **Settled records** (`IsSettled`) are those where this is so at every level.  Of such a record the
   decoder gives back what was written, whatever else it holds, empty and absent members included.
3. **Whatever is read is settled**, so writing it and reading that again changes nothing more.
-/

namespace Gatehouse

open Json

/-! ## Parts of a record -/

namespace Json

variable {α : Type} {name other : String} {r : Record} {read : Json → Option α} {write : α → Json}

theorem map_fst_memberOfSome_sublist (name : String) (write : α → Json) (a? : Option α) :
    ((memberOfSome name write a?).map Prod.fst).Sublist [name] := by
  cases a? with
  | none => exact List.nil_sublist _
  | some a => exact List.Sublist.refl _

theorem map_fst_memberUnless_sublist (omitted : Bool) (name : String) (value : Json) :
    ((memberUnless omitted name value).map Prod.fst).Sublist [name] := by
  cases omitted
  · exact List.Sublist.refl _
  · exact List.nil_sublist _

theorem member?_memberUnless (omitted : Bool) (name : String) (value : Json) :
    member? name (memberUnless omitted name value) = if omitted then none else some value := by
  cases omitted <;> simp [memberUnless, member?]

theorem member?_memberUnless_of_ne {omitted : Bool} {value : Json} (h : name ≠ other) :
    member? other (memberUnless omitted name value) = none := by
  cases omitted <;> simp [memberUnless, member?, h]

/-- A member that is left out if it is the default one is read back. -/
theorem Record.defaulted_of_unless {omitted : Bool} {value : Json} {default a : α}
    (hr : r name = if omitted then none else some value) (ha : omitted = true → default = a)
    (hread : read value = some a) : r.defaulted name read default = some a := by
  cases omitted with
  | false => exact Record.defaulted_of hr hread
  | true =>
    rw [Record.defaulted, hr, ← ha rfl]
    rfl

/-- A member that is left out if there is none is read back. -/
theorem Record.optional_of_map {a? : Option α} (hr : r name = a?.map write) (hnull : ∀ a, write a ≠ .null)
    (hread : ∀ a ∈ a?, read (write a) = some a) : r.optional name read = some a? := by
  cases a? with
  | none =>
    rw [Record.optional, hr]
    rfl
  | some a => exact Record.optional_of hr (hnull a) (hread a rfl)

/-- Each item was read from a value. -/
theorem exists_of_mem_items? {value : Json} {as : List α} (h : items? read value = some as) {a : α}
    (ha : a ∈ as) : ∃ v, read v = some a := by
  cases value with
  | array values =>
    induction values generalizing as with
    | nil =>
      obtain rfl : [] = as := Option.some.inj h
      contradiction
    | cons v values ih =>
      rw [items?, List.mapM_cons] at h
      obtain ⟨b, hb, hrest⟩ := Option.bind_eq_some_iff.1 h
      obtain ⟨bs, hbs, has⟩ := Option.bind_eq_some_iff.1 hrest
      obtain rfl : b :: bs = as := Option.some.inj has
      rcases List.mem_cons.1 ha with rfl | ha
      · exact ⟨v, hb⟩
      · exact ih ha hbs
  | _ => contradiction

end Json

namespace Occurrence

variable {names : List String} {typed others : List (String × Json)} {value : Json}

/-- None of the members has one of the names. -/
def Apart (names : List String) (others : List (String × Json)) : Prop := ∀ m ∈ others, m.1 ∉ names

theorem apart_of_others? (h : others? names value = some others) : Apart names others := by
  cases value with
  | object members =>
    obtain rfl : membersExcept names members = others := Option.some.inj h
    intro m hm
    simpa using (List.mem_filter.1 hm).2
  | _ => contradiction

theorem member?_of_apart {name : String} (hothers : Apart names others) (hname : name ∈ names) :
    member? name others = none := by
  induction others with
  | nil => rfl
  | cons m others ih =>
    obtain ⟨key, v⟩ := m
    have hkey : key ≠ name := fun h => hothers (key, v) List.mem_cons_self (h ▸ hname)
    rw [member?, if_neg hkey]
    exact ih fun m hm => hothers m (List.mem_cons_of_mem _ hm)

/-- **The typed members and the others are told apart again.** -/
theorem exists_record (hnames : names.Nodup) (htyped : (typed.map Prod.fst).Sublist names)
    (hothers : Apart names others) : ∃ r, Record.ofObject? names (.object (typed ++ others)) = some r ∧
      (∀ name ∈ names, r name = member? name typed) ∧
      others? names (.object (typed ++ others)) = some others := by
  have honce : ∀ name ∈ names, ((typed ++ others).filter fun m => m.1 = name).length ≤ 1 := by
    intro name hname
    have hnone : others.filter (fun m => m.1 = name) = [] :=
      List.filter_eq_nil_iff.2 fun m hm hm' => hothers m hm (of_decide_eq_true hm' ▸ hname)
    rw [List.filter_append, hnone, List.append_nil]
    exact length_filter_le_one (htyped.nodup hnames) name
  have hall : (names.all fun name => ((typed ++ others).filter fun m => m.1 = name).length ≤ 1) = true :=
    List.all_eq_true.2 fun name hname => decide_eq_true (honce name hname)
  have hnone : membersExcept names typed = [] :=
    List.filter_eq_nil_iff.2 fun m hm => by simp [htyped.subset (List.mem_map_of_mem hm)]
  have hwhole : membersExcept names others = others :=
    List.filter_eq_self.2 fun m hm => by simpa using hothers m hm
  have happend : membersExcept names (typed ++ others) =
      membersExcept names typed ++ membersExcept names others := List.filter_append ..
  refine ⟨fun name => member? name (typed ++ others), ?_, fun name hname => ?_, ?_⟩
  · simp only [Record.ofObject?, hall, if_true]
  · show member? name (typed ++ others) = member? name typed
    rw [member?_append, member?_of_apart hothers hname, Option.or_none]
  · rw [others?, members?, Option.map_some, happend, hnone, hwhole, List.nil_append]

/-! ## Inner records -/

theorem NoteKind.ofJson?_toJson (k : NoteKind) : NoteKind.ofJson? k.toJson = some k := by
  cases k <;> decide

theorem Artifact.ofJson?_toJson (a : Artifact) : Artifact.ofJson? a.toJson = some a := by
  obtain ⟨id, checksum, names⟩ := a
  have hsub : ((("id", Json.string id) :: memberUnless checksum.isEmpty "checksum" (.string checksum) ++
      memberUnless names.isEmpty "names" (.strings names)).map Prod.fst).Sublist ["id", "checksum", "names"] := by
    rw [List.map_append, List.map_cons]
    exact ((map_fst_memberUnless_sublist _ "checksum" _).cons_cons "id").append
      (map_fst_memberUnless_sublist _ "names" _)
  have hnames : items? string? (.strings names) = some names := items?_map fun _ _ => rfl
  have hchecksum : member? "checksum" (("id", Json.string id) ::
      memberUnless checksum.isEmpty "checksum" (.string checksum) ++
      memberUnless names.isEmpty "names" (.strings names)) =
      if checksum.isEmpty then none else some (.string checksum) := by
    rw [member?_append, member?_memberUnless_of_ne (by decide), Option.or_none]
    exact member?_memberUnless _ _ _
  have hnamed : member? "names" (("id", Json.string id) ::
      memberUnless checksum.isEmpty "checksum" (.string checksum) ++
      memberUnless names.isEmpty "names" (.strings names)) =
      if names.isEmpty then none else some (.strings names) := by
    rw [member?_append, member?_memberUnless]
    show (member? "names" (memberUnless checksum.isEmpty "checksum" (.string checksum))).or _ = _
    rw [member?_memberUnless_of_ne (by decide), Option.none_or]
  exact Record.step (Record.ofJson?_object _ (hsub.nodup (by decide))) <| Record.step rfl <|
    Record.step (Record.defaulted_of_unless hchecksum (fun h => (String.isEmpty_iff.1 h).symm) rfl) <|
    Record.step (Record.defaulted_of_unless hnamed (fun h => (List.isEmpty_iff.1 h).symm) hnames) rfl

/-- A resource whose other members have other names. -/
def Resource.IsSettled (r : Resource) : Prop := Apart ["uri"] r.others

theorem Resource.ofJson?_toJson {r : Resource} (h : r.IsSettled) : Resource.ofJson? r.toJson = some r := by
  obtain ⟨uri, others⟩ := r
  have htyped : ([("uri", Json.string uri)].map Prod.fst).Sublist ["uri"] := List.Sublist.refl _
  obtain ⟨r, hr, hmember, hothers⟩ := exists_record (by simp) htyped h
  exact Record.step hr <|
    Record.step (Record.defaulted_of (hmember "uri" (by simp)) rfl) <| Record.step hothers rfl

/-- A provenance whose other members have other names. -/
def Provenance.IsSettled (p : Provenance) : Prop := Apart Provenance.names p.others

theorem Provenance.ofJson?_toJson {p : Provenance} (h : p.IsSettled) :
    Provenance.ofJson? p.toJson = some p := by
  obtain ⟨id, builtArtifacts, others⟩ := p
  have hartifacts : items? Artifact.ofJson? (.array (builtArtifacts.map Artifact.toJson)) =
      some builtArtifacts := items?_map fun a _ => Artifact.ofJson?_toJson a
  have hsub : ((memberUnless id.isEmpty "id" (.string id) ++
      [("builtArtifacts", Json.array (builtArtifacts.map Artifact.toJson))]).map Prod.fst).Sublist names := by
    rw [List.map_append]
    exact (map_fst_memberUnless_sublist _ "id" _).append (List.Sublist.refl _)
  obtain ⟨r, hr, hmember, hothers⟩ := exists_record (by decide) hsub h
  have hid := hmember "id" (by decide)
  rw [member?_append, member?_memberUnless] at hid
  have hbuilt := hmember "builtArtifacts" (by decide)
  rw [member?_append, member?_memberUnless_of_ne (by decide), Option.none_or] at hbuilt
  rw [List.append_assoc] at hr hothers
  refine Record.step hr <|
    Record.step (Record.defaulted_of_unless (hid.trans (Option.or_none ..))
      (fun h => (String.isEmpty_iff.1 h).symm) rfl) <|
    Record.step (Record.defaulted_of hbuilt hartifacts) <| Record.step hothers rfl

/-- A build whose members are told apart at every level. -/
structure Build.IsSettled (b : Build) : Prop where
  others : Apart ["provenance"] b.others
  provenance : ∀ p ∈ b.provenance?, p.IsSettled

theorem Build.ofJson?_toJson {b : Build} (h : b.IsSettled) : Build.ofJson? b.toJson = some b := by
  obtain ⟨provenance?, others⟩ := b
  obtain ⟨r, hr, hmember, hothers⟩ := exists_record (by simp)
    (map_fst_memberOfSome_sublist "provenance" Provenance.toJson provenance?) h.others
  have hprovenance := hmember "provenance" (by simp)
  rw [member?_memberOfSome] at hprovenance
  exact Record.step hr <|
    Record.step (Record.optional_of_map hprovenance nofun
      fun p hp => Provenance.ofJson?_toJson (h.provenance p hp)) <| Record.step hothers rfl

end Occurrence

/-! ## Occurrences -/

namespace Occurrence

/-- An occurrence whose members are told apart at every level. -/
structure IsSettled (o : Occurrence) : Prop where
  details : Apart memberNames o.details
  resource : o.resource.IsSettled
  build : ∀ b ∈ o.build?, b.IsSettled

/-- The typed members of an occurrence as they are written. -/
def typedMembers (o : Occurrence) : List (String × Json) :=
  [("name", .string o.name), ("resource", o.resource.toJson), ("noteName", .string o.noteName),
    ("kind", o.kind.toJson)] ++
    memberOfSome "createTime" .string o.createTime? ++ memberOfSome "updateTime" .string o.updateTime? ++
    memberOfSome "build" Build.toJson o.build?

theorem typedMembers_sublist (o : Occurrence) : (o.typedMembers.map Prod.fst).Sublist memberNames := by
  simp only [typedMembers, List.map_append]
  exact (((List.Sublist.refl ["name", "resource", "noteName", "kind"]).append
    (map_fst_memberOfSome_sublist "createTime" _ _)).append
    (map_fst_memberOfSome_sublist "updateTime" _ _)).append (map_fst_memberOfSome_sublist "build" _ _)

/-- What stands at the places of the members that may be left out. -/
theorem member?_typedMembers (o : Occurrence) :
    member? "createTime" o.typedMembers = o.createTime?.map .string ∧
      member? "updateTime" o.typedMembers = o.updateTime?.map .string ∧
      member? "build" o.typedMembers = o.build?.map Build.toJson := by
  have hne : ∀ {α : Type} {write : α → Json} {a? : Option α} {name other : String}, name ≠ other →
      member? other (memberOfSome name write a?) = none := member?_memberOfSome_of_ne
  simp only [typedMembers, member?_append, member?_memberOfSome]
  -- no two of the three have one name
  refine ⟨?_, ?_, ?_⟩
  all_goals
    rw [hne (by decide), hne (by decide), Option.or_none, Option.or_none]
    exact Option.none_or

/-- **An occurrence that is written is read back.** -/
theorem ofJson?_toJson {o : Occurrence} (h : o.IsSettled) : Occurrence.ofJson? o.toJson = some o := by
  obtain ⟨r, hr, hmember, hothers⟩ := exists_record (by decide) o.typedMembers_sublist h.details
  obtain ⟨hcreate, hupdate, hbuild⟩ := o.member?_typedMembers
  exact Record.step hr <|
    Record.step (Record.defaulted_of (hmember "name" (by decide)) rfl) <|
    Record.step (Record.defaulted_of (hmember "resource" (by decide)) (Resource.ofJson?_toJson h.resource)) <|
    Record.step (Record.defaulted_of (hmember "noteName" (by decide)) rfl) <|
    Record.step (Record.defaulted_of (hmember "kind" (by decide)) o.kind.ofJson?_toJson) <|
    Record.step (Record.optional_of_map ((hmember "createTime" (by decide)).trans hcreate) nofun fun _ _ => rfl) <|
    Record.step (Record.optional_of_map ((hmember "updateTime" (by decide)).trans hupdate) nofun fun _ _ => rfl) <|
    Record.step (Record.optional_of_map ((hmember "build" (by decide)).trans hbuild) nofun
      fun b hb => Build.ofJson?_toJson (h.build b hb)) <| Record.step hothers rfl

/-! ## What is read -/

theorem Resource.isSettled_of_ofJson? {r : Resource} (h : Resource.ofJson? value = some r) : r.IsSettled := by
  simp only [Resource.ofJson?, Option.bind_eq_bind, Option.bind_eq_some_iff] at h
  obtain ⟨_, -, uri, -, others, hothers, hr⟩ := h
  cases hr
  exact apart_of_others? hothers

theorem Provenance.isSettled_of_ofJson? {p : Provenance} (h : Provenance.ofJson? value = some p) :
    p.IsSettled := by
  simp only [Provenance.ofJson?, Option.bind_eq_bind, Option.bind_eq_some_iff] at h
  obtain ⟨_, -, id, -, artifacts, -, others, hothers, hp⟩ := h
  cases hp
  exact apart_of_others? hothers

theorem Build.isSettled_of_ofJson? {b : Build} (h : Build.ofJson? value = some b) : b.IsSettled := by
  simp only [Build.ofJson?, Option.bind_eq_bind, Option.bind_eq_some_iff] at h
  obtain ⟨_, -, provenance?, hprovenance, others, hothers, hb⟩ := h
  cases hb
  refine ⟨apart_of_others? hothers, fun p hp => ?_⟩
  rcases Record.eq_of_optional hprovenance with ⟨hnone, -⟩ | ⟨v, q, -, hread, hq⟩
  · simp [hnone] at hp
  · obtain rfl : q = p := by simpa [hq] using hp
    exact Provenance.isSettled_of_ofJson? hread

/-- **What was read is settled.** -/
theorem isSettled_of_ofJson? {o : Occurrence} (h : Occurrence.ofJson? value = some o) : o.IsSettled := by
  simp only [Occurrence.ofJson?, Option.bind_eq_bind, Option.bind_eq_some_iff] at h
  obtain ⟨_, -, name, -, resource, hresource, noteName, -, kind, -, create, -, update, -,
    build?, hbuild, details, hdetails, ho⟩ := h
  cases ho
  refine ⟨apart_of_others? hdetails, ?_, fun b hb => ?_⟩
  · rcases Record.eq_of_defaulted hresource with ⟨-, hempty⟩ | ⟨v, -, hread⟩
    · rw [hempty]
      exact fun m hm => absurd hm List.not_mem_nil
    · exact Resource.isSettled_of_ofJson? hread
  · rcases Record.eq_of_optional hbuild with ⟨hnone, -⟩ | ⟨v, c, -, hread, hc⟩
    · simp [hnone] at hb
    · obtain rfl : c = b := by simpa [hc] using hb
      exact Build.isSettled_of_ofJson? hread

/-- A page of settled occurrences. -/
def ListResponse.IsSettled (r : ListResponse) : Prop := ∀ o ∈ r.occurrences, o.IsSettled

theorem ListResponse.ofJson?_toJson {r : ListResponse} (h : r.IsSettled) :
    ListResponse.ofJson? r.toJson = some r :=
  have hoccurrences : items? Occurrence.ofJson? (.array (r.occurrences.map Occurrence.toJson)) =
      some r.occurrences := items?_map fun o ho => Occurrence.ofJson?_toJson (h o ho)
  Record.step (Record.ofJson?_object _ (by simp)) <|
    Record.step (Record.defaulted_of rfl hoccurrences) <| Record.step rfl rfl

theorem ListResponse.isSettled_of_ofJson? {r : ListResponse} (h : ListResponse.ofJson? value = some r) :
    r.IsSettled := by
  simp only [ListResponse.ofJson?, Option.bind_eq_bind, Option.bind_eq_some_iff] at h
  obtain ⟨_, -, occurrences, hoccurrences, token, -, hr⟩ := h
  cases hr
  intro o ho
  rcases Record.eq_of_defaulted hoccurrences with ⟨-, hnone⟩ | ⟨v, -, hread⟩
  · simp [hnone] at ho
  · obtain ⟨v, hv⟩ := exists_of_mem_items? hread ho
    exact Occurrence.isSettled_of_ofJson? hv

end Occurrence
end Gatehouse
