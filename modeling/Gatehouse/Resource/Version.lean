import Gatehouse.Time.Json

/-!
# Versions of resources

What a resource is known as: its address, and the names under which it was published.
-/

namespace Gatehouse

open Json

/-- A resource at one version. -/
structure ResourceVersion where
  /-- The address. -/
  version : String
  names : List String
  created? : Option Instant
  deriving DecidableEq, Repr

namespace ResourceVersion

/-- A resource as a value. -/
def toJson (v : ResourceVersion) : Json :=
  .object <| [("version", .string v.version), ("names", .strings v.names)] ++
    memberOfSome "created" Instant.toJson v.created?

/-- The resource that a value is. -/
def ofJson? (value : Json) : Option ResourceVersion := do
  let r ← Record.ofJson? ["version", "names", "created"] value
  return {
    version := ← r.required "version" string?
    names := ← r.defaulted "names" (items? string?) []
    created? := ← r.optional "created" Instant.ofJson? }

end ResourceVersion
end Gatehouse
