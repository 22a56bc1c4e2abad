import Gatehouse.Resource.Selection
import Gatehouse.Resource.Uri
import Gatehouse.Resource.Version
import Gatehouse.Service.Effect

/-!
# Resolving resources

What is known about a resource is found in two steps.

1. **Lineage.**  The builds that ran on the resource or made it say where it comes from: the resource
   of each build, and everything that it made.  Of the artifacts, those that are the resource itself
   say under which names it was published.
2. **Occurrences.**  Everything known about the resource and its relatives is then asked for at once.

Addresses and names are collected in the order in which they are first seen, each once, and empty
ones not at all.  Only the first page of either answer is looked at.
-/

namespace Gatehouse.Resource

open Service Occurrence

/-- The list with a text at its end, if it is new and not empty. -/
def addNew (found : List String) (text : String) : List String :=
  if text.isEmpty || found.contains text then found else found ++ [text]

/-- The addresses that a build relates to each other. -/
def addressesOf (build : Occurrence) : List String :=
  build.resourceUri :: build.builtArtifacts.map Artifact.id

/-- The resource and its relatives through some builds. -/
def relatives (uri : String) (builds : List Occurrence) : List String :=
  (builds.flatMap addressesOf).foldl addNew [uri]

/-- The names under which some builds published a resource. -/
def publishedNames (uri : String) (builds : List Occurrence) : List String :=
  let artifacts := (builds.flatMap builtArtifacts).filter fun a => a.id = uri
  (artifacts.flatMap Artifact.names).foldl addNew []

/-- What is known about a resource. -/
structure Resolved where
  resourceVersion : ResourceVersion
  occurrences : List Occurrence
  /-- Not empty if there is more than was looked at. -/
  nextPageToken : String
  deriving Repr

/-- The question for occurrences that a filter selects. -/
def question (filter : String) : ListRequest :=
  { parent := project, filter := filter, pageSize := greatestPage }

/-- Find out what is known about a resource. -/
def resolve (uri : String) : Action Resolved := do
  ensure (!uri.isEmpty) (.required "resource uri")
  let builds ← listOccurrences "error listing build occurrences" (question (buildsOf uri))
  let related ← listOccurrences "error listing occurrences"
    (question (onAnyOf (relatives uri builds.occurrences)))
  return {
    resourceVersion := ⟨uri, publishedNames uri builds.occurrences, none⟩
    occurrences := related.occurrences
    nextPageToken := related.nextPageToken }

/-- Find out what is known about a resource whose address has to be one of a known kind. -/
def resolveKnown (uri : String) : Action Resolved := do
  ensure (ResourceUri.ofText? uri).isSome (.unknownResource uri)
  resolve uri

end Gatehouse.Resource
