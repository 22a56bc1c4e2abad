/-!
# Selecting occurrences

The filters that ask an occurrence store about resources.  An address may hold anything, so it goes
into a filter as a quoted text, in which quotes and backslashes have a backslash before them.
-/

namespace Gatehouse.Resource

/-- A text as a literal of a filter. -/
def literal (text : String) : String :=
  let escape (c : Char) : List Char := if c = '\\' || c = '"' then ['\\', c] else [c]
  String.ofList ('"' :: text.toList.flatMap escape ++ ['"'])

/-- Selects the builds that ran on a resource or made it. -/
def buildsOf (uri : String) : String :=
  "kind == " ++ literal "BUILD" ++ " && (resource.uri == " ++ literal uri ++
    " || build.provenance.builtArtifacts.nestedFilter(id == " ++ literal uri ++ "))"

/-- Selects the occurrences on any of some resources. -/
def onAnyOf (uris : List String) : String :=
  " || ".intercalate (uris.map fun uri => "resource.uri == " ++ literal uri)

example : literal "a\"b\\c" = "\"a\\\"b\\\\c\"" := by decide +kernel
example : onAnyOf ["a", "b"] = "resource.uri == \"a\" || resource.uri == \"b\"" := by decide +kernel

end Gatehouse.Resource
