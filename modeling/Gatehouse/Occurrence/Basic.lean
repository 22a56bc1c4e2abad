import Gatehouse.Json.Record

/-!
# Occurrences

Records about resources, kept by an occurrence store and shown to policies.

* **What is typed.**  The few members that the service looks at: the resource, the kind, and for
  builds the artifacts that came out of them.
* **What is kept.**  Every other member of an occurrence, its resource, its build and the build's
  provenance is held as it was written, so that a policy sees the record as it is.  An artifact is
  plain: it holds its own members only.
* **Writing** leaves out what is absent, and for an artifact and a provenance also what is empty.
-/

namespace Gatehouse.Occurrence

open Json

/-- What kind of note an occurrence instantiates. -/
inductive NoteKind where
  | vulnerability | build | image | package | deployment | discovery | attestation | intoto
  | unspecified
  deriving DecidableEq, Repr

namespace NoteKind

/-- Every kind. -/
def all : List NoteKind :=
  [vulnerability, build, image, package, deployment, discovery, attestation, intoto, unspecified]

/-- The name of a kind. -/
def name : NoteKind → String
  | vulnerability => "VULNERABILITY"
  | build => "BUILD"
  | image => "IMAGE"
  | package => "PACKAGE"
  | deployment => "DEPLOYMENT"
  | discovery => "DISCOVERY"
  | attestation => "ATTESTATION"
  | intoto => "INTOTO"
  | unspecified => "NOTE_KIND_UNSPECIFIED"

/-- The kind of a name; a name that means nothing here leaves the kind unspecified. -/
def ofName (text : String) : NoteKind := (all.find? fun k => k.name = text).getD unspecified

/-- A kind as a value. -/
def toJson (k : NoteKind) : Json := .string k.name

/-- The kind that a value is. -/
def ofJson? (value : Json) : Option NoteKind := choice? (fun text => some (ofName text)) value

end NoteKind

/-- The members of an object besides those of the given names. -/
def others? (names : List String) (value : Json) : Option (List (String × Json)) :=
  (members? value).map (membersExcept names)

/-! ## Resources -/

/-- The resource that an occurrence is about. -/
structure Resource where
  uri : String
  others : List (String × Json)
  deriving Repr

namespace Resource

/-- A resource without an address. -/
def empty : Resource := ⟨"", []⟩

/-- A resource as a value. -/
def toJson (r : Resource) : Json := .object (("uri", .string r.uri) :: r.others)

/-- The resource that a value is. -/
def ofJson? (value : Json) : Option Resource := do
  let r ← Record.ofObject? ["uri"] value
  return {
    uri := ← r.defaulted "uri" string? ""
    others := ← others? ["uri"] value }

end Resource

/-! ## Builds -/

/-- Something that a build made. -/
structure Artifact where
  id : String
  checksum : String
  /-- The names under which it was published. -/
  names : List String
  deriving DecidableEq, Repr

namespace Artifact

/-- An artifact as a value. -/
def toJson (a : Artifact) : Json :=
  .object <| ("id", .string a.id) :: memberUnless a.checksum.isEmpty "checksum" (.string a.checksum) ++
    memberUnless a.names.isEmpty "names" (.strings a.names)

/-- The artifact that a value is. -/
def ofJson? (value : Json) : Option Artifact := do
  let r ← Record.ofJson? ["id", "checksum", "names"] value
  return {
    id := ← r.defaulted "id" string? ""
    checksum := ← r.defaulted "checksum" string? ""
    names := ← r.defaulted "names" (items? string?) [] }

end Artifact

/-- Where artifacts come from. -/
structure Provenance where
  id : String
  builtArtifacts : List Artifact
  others : List (String × Json)
  deriving Repr

namespace Provenance

/-- The names of the typed members. -/
def names : List String := ["id", "builtArtifacts"]

/-- A provenance as a value. -/
def toJson (p : Provenance) : Json :=
  .object <| memberUnless p.id.isEmpty "id" (.string p.id) ++
    ("builtArtifacts", .array (p.builtArtifacts.map Artifact.toJson)) :: p.others

/-- The provenance that a value is. -/
def ofJson? (value : Json) : Option Provenance := do
  let r ← Record.ofObject? names value
  return {
    id := ← r.defaulted "id" string? ""
    builtArtifacts := ← r.defaulted "builtArtifacts" (items? Artifact.ofJson?) []
    others := ← others? names value }

end Provenance

/-- A build. -/
structure Build where
  provenance? : Option Provenance
  others : List (String × Json)
  deriving Repr

namespace Build

/-- A build as a value. -/
def toJson (b : Build) : Json :=
  .object (memberOfSome "provenance" Provenance.toJson b.provenance? ++ b.others)

/-- The build that a value is. -/
def ofJson? (value : Json) : Option Build := do
  let r ← Record.ofObject? ["provenance"] value
  return {
    provenance? := ← r.optional "provenance" Provenance.ofJson?
    others := ← others? ["provenance"] value }

end Build
end Occurrence

/-! ## Occurrences -/

open Json Occurrence

/-- A record about a resource. -/
structure Occurrence where
  name : String
  resource : Resource
  noteName : String
  kind : NoteKind
  createTime? : Option String
  updateTime? : Option String
  build? : Option Build
  details : List (String × Json)
  deriving Repr

namespace Occurrence

/-- The names of the typed members. -/
def memberNames : List String :=
  ["name", "resource", "noteName", "kind", "createTime", "updateTime", "build"]

/-- The address of the resource. -/
def resourceUri (o : Occurrence) : String := o.resource.uri

/-- What the build made; nothing, if there is none. -/
def builtArtifacts (o : Occurrence) : List Artifact :=
  match o.build?.bind Build.provenance? with
  | some p => p.builtArtifacts
  | none => []

/-- An occurrence as a value. -/
def toJson (o : Occurrence) : Json :=
  .object <|
    [("name", .string o.name), ("resource", o.resource.toJson), ("noteName", .string o.noteName),
     ("kind", o.kind.toJson)] ++
    memberOfSome "createTime" .string o.createTime? ++
    memberOfSome "updateTime" .string o.updateTime? ++
    memberOfSome "build" Build.toJson o.build? ++ o.details

/-- The occurrence that a value is. -/
def ofJson? (value : Json) : Option Occurrence := do
  let r ← Record.ofObject? memberNames value
  return {
    name := ← r.defaulted "name" string? ""
    resource := ← r.defaulted "resource" Resource.ofJson? Resource.empty
    noteName := ← r.defaulted "noteName" string? ""
    kind := ← r.defaulted "kind" NoteKind.ofJson? .unspecified
    createTime? := ← r.optional "createTime" string?
    updateTime? := ← r.optional "updateTime" string?
    build? := ← r.optional "build" Build.ofJson?
    details := ← others? memberNames value }

end Occurrence
end Gatehouse
