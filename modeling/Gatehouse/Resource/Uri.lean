import Gatehouse.Json.Record
import Gatehouse.Text.Cut
import Gatehouse.Text.Hex

/-!
# Resource addresses

An artifact is addressed by a text that names its kind, its name and its version.

| kind    | form                                          |
|---------|-----------------------------------------------|
| Debian  | `deb://dist:arch:name:version`                |
| Git     | `git://name@version`                          |
| Maven   | `gav://group:artifact:version`                |
| NPM     | `npm://name:version`                          |
| NuGet   | `nuget://name:version`                        |
| Pip     | `pip://name:version`                          |
| RPM     | `rpm://dist:arch:name:version`                |
| generic | `generic://name@version`                      |
| Docker  | `name@sha256:digits`, perhaps after `http://` |

1. **Program.**  Every form is a list of parts, each but the last up to a separator.  `cut` takes one
   part off, and a form is a few cuts in a row, so no form can be split in two ways.
2. **Order.**  The forms are tried in the order of the table, and the first that fits wins.  Only the
   last has no scheme of its own.
3. **Identity.**  Kind and name without the version identify what is the same artifact over time.
-/

namespace Gatehouse.Resource

open Json Gatehouse.Text

/-- Kinds of artifacts. -/
inductive ResourceType where
  | debian | docker | generic | git | maven | npm | nuget | pip | rpm
  deriving DecidableEq, Repr

namespace ResourceType

/-- Every kind. -/
def all : List ResourceType := [debian, docker, generic, git, maven, npm, nuget, pip, rpm]

/-- The name of a kind. -/
def name : ResourceType → String
  | debian => "DEBIAN"
  | docker => "DOCKER"
  | generic => "GENERIC"
  | git => "GIT"
  | maven => "MAVEN"
  | npm => "NPM"
  | nuget => "NUGET"
  | pip => "PIP"
  | rpm => "RPM"

/-- The kind of a name. -/
def ofName? (text : String) : Option ResourceType := all.find? fun t => t.name = text

end ResourceType

/-- An address in its parts. -/
structure ResourceUri where
  name : String
  version : String
  resourceType : ResourceType
  deriving DecidableEq, Repr

/-! ## Parts -/

/-- The name and the version of an address. -/
abbrev Parts := List Char × List Char

/-- Parts that are both there, the version being on one line. -/
def onOneLine (p : Parts) : Option Parts :=
  if p.1.isEmpty || p.2.isEmpty || p.2.contains '\n' then none else some p

/-- `name:version`. -/
def colonForm (cs : List Char) : Option Parts := (cut ':' cs).bind onOneLine

/-- `name@version`. -/
def atForm (cs : List Char) : Option Parts := (cut '@' cs).bind onOneLine

/-- `dist:arch:name:version`, where the first two may be empty. -/
def distributionForm (cs : List Char) : Option Parts := do
  let (_, cs) ← cut ':' cs
  let (_, cs) ← cut ':' cs
  colonForm cs

/-- `name@version` with no other `@`. -/
def commitForm (cs : List Char) : Option Parts := do
  let (name, version) ← cut '@' cs
  if name.isEmpty || version.isEmpty || version.contains '@' then none else some (name, version)

/-- `group:artifact:version` with no other colon. -/
def coordinateForm (cs : List Char) : Option Parts := do
  let (group, cs) ← cut ':' cs
  let (artifact, version) ← cut ':' cs
  if group.isEmpty || artifact.isEmpty || version.isEmpty || version.contains ':' then none
  else some (group ++ ':' :: artifact, version)

/-- `name@sha256:digits`. -/
def digestForm (cs : List Char) : Option Parts := do
  let (name, cs) ← cut '@' cs
  let version ← dropStart "sha256:" cs
  if name.isEmpty || version.isEmpty || !version.all fun c => (hexValue? c).isSome then none
  else some (name, version)

/-- `name@sha256:digits`, without the scheme of the web if that leaves a name. -/
def imageForm (cs : List Char) : Option Parts :=
  ((dropStart "https://" cs <|> dropStart "http://" cs).bind digestForm) <|> digestForm cs

/-! ## Addresses -/

/-- The forms in the order in which they are tried. -/
def forms : List (ResourceType × (List Char → Option Parts)) :=
  let after (scheme : String) (form : List Char → Option Parts) := fun cs =>
    (dropStart scheme cs).bind form
  [(.debian, after "deb://" distributionForm),
   (.git, after "git://" commitForm),
   (.maven, after "gav://" coordinateForm),
   (.npm, after "npm://" colonForm),
   (.nuget, after "nuget://" colonForm),
   (.pip, after "pip://" colonForm),
   (.rpm, after "rpm://" distributionForm),
   (.generic, after "generic://" atForm),
   (.docker, imageForm)]

namespace ResourceUri

/-- The parts of an address. -/
def ofText? (uri : String) : Option ResourceUri :=
  forms.findSome? fun (kind, form) =>
    (form uri.toList).map fun (name, version) =>
      ⟨String.ofList name, String.ofList version, kind⟩

/-- What stays the same from version to version. -/
def identity (u : ResourceUri) : ResourceType × String := (u.resourceType, u.name)

/-- The text of the identity. -/
def key (u : ResourceUri) : String := u.resourceType.name ++ ":" ++ u.name

/-- The first address of each artifact among those that are addresses. -/
def distinct (uris : List String) : List ResourceUri :=
  (uris.filterMap ofText?).foldl
    (fun found u => if found.any fun v => v.identity = u.identity then found else found ++ [u]) []

/-- An address as a value. -/
def toJson (u : ResourceUri) : Json :=
  .object [("name", .string u.name), ("version", .string u.version),
    ("resourceType", .string u.resourceType.name)]

/-- The address that a value is. -/
def ofJson? (value : Json) : Option ResourceUri := do
  let r ← Record.ofJson? ["name", "version", "resourceType"] value
  return {
    name := ← r.required "name" string?
    version := ← r.required "version" string?
    resourceType := ← r.required "resourceType" (choice? ResourceType.ofName?) }

/-! ## Addresses of each kind -/

example : ofText? "deb://:amd64:openssl:1:1.1.1" = some ⟨"openssl", "1:1.1.1", .debian⟩ := by
  decide +kernel
example : ofText? "gav://org.apache:commons:3" = some ⟨"org.apache:commons", "3", .maven⟩ := by
  decide +kernel
example : ofText? "npm://@acme/client:1.2.3" = some ⟨"@acme/client", "1.2.3", .npm⟩ := by
  decide +kernel
example : ofText? "https://a/b@sha256:0aF" = some ⟨"a/b", "0aF", .docker⟩ := by decide +kernel
example : ofText? "http://@sha256:0" = some ⟨"http://", "0", .docker⟩ := by decide +kernel
example : ofText? "foo://bar" = none := by decide +kernel

end ResourceUri
end Gatehouse.Resource
