import Gatehouse.Time.Json

/-!
# Policy groups

A group is a named gate that resources are evaluated against.  Its name is its key and is never given
again: a group that is deleted stays, marked as such.
-/

namespace Gatehouse

open Json

/-- A group of policies. -/
structure PolicyGroup where
  name : String
  description : String
  deleted : Bool
  created : Instant
  updated : Instant
  deriving DecidableEq, Repr

namespace PolicyGroup

/-- Names are made of small letters, digits, underscores and hyphens. -/
def isName (text : String) : Bool :=
  !text.isEmpty && text.toList.all fun c => c.isLower || c.isDigit || c = '_' || c = '-'

/-- A group as a value. -/
def toJson (g : PolicyGroup) : Json :=
  .object [("name", .string g.name), ("description", .string g.description),
    ("deleted", .bool g.deleted), ("created", g.created.toJson), ("updated", g.updated.toJson)]

/-- The group that a value is. -/
def ofJson? (value : Json) : Option PolicyGroup := do
  let r ← Record.ofJson? ["name", "description", "deleted", "created", "updated"] value
  return {
    name := ← r.required "name" string?
    description := ← r.defaulted "description" string? ""
    deleted := ← r.defaulted "deleted" bool? false
    created := ← r.required "created" Instant.ofJson?
    updated := ← r.required "updated" Instant.ofJson? }

end PolicyGroup
end Gatehouse
