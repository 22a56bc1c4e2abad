import Gatehouse.Policy.VersionId
import Gatehouse.Time.Json

/-!
# Policies

A policy is a name for a sequence of versions, numbered from 1.  A version holds the source and never
changes; the policy points to the current one.  A policy that is deleted stays, marked as such.
-/

namespace Gatehouse

open Json

/-- The content of a policy at one time. -/
structure PolicyVersion where
  id : String
  policyId : String
  version : UInt32
  regoContent : String
  sourcePath : String
  message : String
  created : Instant
  deriving DecidableEq, Repr

/-- A policy, perhaps together with one of its versions. -/
structure Policy where
  id : String
  name : String
  description : String
  currentVersion : UInt32
  deleted : Bool
  created : Instant
  updated : Instant
  version? : Option PolicyVersion
  deriving DecidableEq, Repr

/-- The number of a version that a value is. -/
def versionNumber? (value : Json) : Option UInt32 :=
  (count? Policy.versionLimit value).map UInt32.ofNat

namespace PolicyVersion

/-- A version as a value. -/
def toJson (v : PolicyVersion) : Json :=
  .object [("id", .string v.id), ("policyId", .string v.policyId),
    ("version", .ofNat v.version.toNat), ("regoContent", .string v.regoContent),
    ("sourcePath", .string v.sourcePath), ("message", .string v.message),
    ("created", v.created.toJson)]

/-- The version that a value is. -/
def ofJson? (value : Json) : Option PolicyVersion := do
  let r ← Record.ofJson?
    ["id", "policyId", "version", "regoContent", "sourcePath", "message", "created"] value
  return {
    id := ← r.required "id" string?
    policyId := ← r.required "policyId" string?
    version := ← r.required "version" versionNumber?
    regoContent := ← r.required "regoContent" string?
    sourcePath := ← r.defaulted "sourcePath" string? ""
    message := ← r.defaulted "message" string? ""
    created := ← r.required "created" Instant.ofJson? }

end PolicyVersion

namespace Policy

/-- A policy as a value. -/
def toJson (p : Policy) : Json :=
  .object <|
    [("id", .string p.id), ("name", .string p.name), ("description", .string p.description),
     ("currentVersion", .ofNat p.currentVersion.toNat), ("deleted", .bool p.deleted),
     ("created", p.created.toJson), ("updated", p.updated.toJson)] ++
    memberOfSome "policy" PolicyVersion.toJson p.version?

/-- The policy that a value is. -/
def ofJson? (value : Json) : Option Policy := do
  let r ← Record.ofJson?
    ["id", "name", "description", "currentVersion", "deleted", "created", "updated", "policy"] value
  return {
    id := ← r.required "id" string?
    name := ← r.required "name" string?
    description := ← r.defaulted "description" string? ""
    currentVersion := ← r.required "currentVersion" versionNumber?
    deleted := ← r.defaulted "deleted" bool? false
    created := ← r.required "created" Instant.ofJson?
    updated := ← r.required "updated" Instant.ofJson?
    version? := ← r.optional "policy" PolicyVersion.ofJson? }

/-- What a new policy needs. -/
structure Draft where
  name : String
  description : String
  regoContent : String
  sourcePath : String
  message : String
  deriving DecidableEq, Repr

namespace Draft

/-- A draft as a value. -/
def toJson (d : Draft) : Json :=
  .object [("name", .string d.name), ("description", .string d.description),
    ("regoContent", .string d.regoContent), ("sourcePath", .string d.sourcePath),
    ("message", .string d.message)]

/-- The draft that a value is. -/
def ofJson? (value : Json) : Option Draft := do
  let r ← Record.ofJson? ["name", "description", "regoContent", "sourcePath", "message"] value
  return {
    name := ← r.required "name" string?
    description := ← r.defaulted "description" string? ""
    regoContent := ← r.required "regoContent" string?
    sourcePath := ← r.defaulted "sourcePath" string? ""
    message := ← r.defaulted "message" string? "" }

end Draft

/-- A change to a policy; what is not given stays as it is. -/
structure Revision where
  name? : Option String
  description? : Option String
  regoContent? : Option String
  sourcePath? : Option String
  message? : Option String
  deriving DecidableEq, Repr

namespace Revision

/-- A text, or `null` if there is none. -/
def orNull : Option String → Json
  | some text => .string text
  | none => .null

/-- A change as a value. -/
def toJson (r : Revision) : Json :=
  .object [("name", orNull r.name?), ("description", orNull r.description?),
    ("regoContent", orNull r.regoContent?), ("sourcePath", orNull r.sourcePath?),
    ("message", orNull r.message?)]

/-- The change that a value is; as an array it has all five members. -/
def ofJson? (value : Json) : Option Revision := do
  let r ← Record.ofJsonFrom? 5 ["name", "description", "regoContent", "sourcePath", "message"] value
  return {
    name? := ← r.optional "name" string?
    description? := ← r.optional "description" string?
    regoContent? := ← r.optional "regoContent" string?
    sourcePath? := ← r.optional "sourcePath" string?
    message? := ← r.optional "message" string? }

end Revision
end Policy
end Gatehouse
