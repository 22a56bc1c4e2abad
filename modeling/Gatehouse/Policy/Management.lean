import Gatehouse.Assignment.Search
import Gatehouse.Policy.Basic
import Gatehouse.Rego.Validation

/-!
# Managing policies

1. **Storage.**  A policy is a parent document, each of its versions a child of it, and both are in
   one index.  So an id alone does not say what a document is: its relation does.
2. **Content.**  Only what the validator accepts becomes a version.  The validator is told which
   sources the rule engine would refuse (`Refusal`).
3. **Revisions.**  A changed source becomes the next version, written together with the policy in one
   bulk; all other changes leave the versions alone.
4. **Deletion** first drops the assignments of the policy's versions, then marks the policy.
-/

namespace Gatehouse.Policy

open Service Store

/-- The relation of policies in their families. -/
def relation : String := "policy"

/-- The relation of versions in their families. -/
def versionRelation : String := "version"

/-- The document of a policy; versions have their own. -/
def document (p : Policy) : Document :=
  ⟨p.id, { p with version? := none }.toJson, some (.ofParent joinField relation)⟩

/-- The document of a version. -/
def versionDocument (v : PolicyVersion) : Document :=
  ⟨v.id, v.toJson, some (.ofChild joinField versionRelation v.policyId)⟩

/-! ## Reading -/

/-- The policy of an id, deleted or not. -/
def find? (id : String) : Action (Option Policy) := do
  match ← call "error fetching policy" (.get Shelf.policies.index id) with
  | some d =>
    if Document.relation? d = some relation then return some (← decoded .policy ofJson? d)
    else return none
  | none => return none

/-- The version of an id. -/
def findVersion? (id : String) : Action (Option PolicyVersion) := do
  match ← call "error fetching policy version" (.get Shelf.policies.index id) with
  | some d =>
    if Document.relation? d = some versionRelation then
      return some (← decoded .policyVersion PolicyVersion.ofJson? d)
    else return none
  | none => return none

/-- The policy of an id, which has to be there. -/
def require (id : String) : Action Policy := do
  match ← find? id with
  | some p => return p
  | none => throw (.notFound .policy id)

/-- A policy and one of its versions: that of the id, or the current one of the policy. -/
def getWithVersion (id : String) : Action (Policy × PolicyVersion) := do
  ensure (!id.isEmpty) (.required "policy id")
  let parts := ofVersionId? id
  let policyId := (parts.map Prod.fst).getD id
  let policy ← require policyId
  let wanted := versionId policyId ((parts.map Prod.snd).getD policy.currentVersion)
  match ← findVersion? wanted with
  | some v => return (policy, v)
  | none =>
    if parts.isSome then throw (.notFound .policyVersion wanted)
    else throw (.internal "error fetching current policy version" (.lackingVersion policyId wanted))

/-- The policy of an id, or of the id of one of its versions, with that version. -/
def get (id : String) : Action Policy := do
  let (policy, version) ← getWithVersion id
  return { policy with version? := some version }

/-- A page of the policies that are not deleted, newest first. -/
def list (o : ListOptions) : Action (Page Policy) :=
  Service.list .policy ofJson? .policies "error searching policies" o
    [.hasRelation relation, .term ["deleted"] (.bool false)] ⟨["created"], true⟩

/-- A page of the versions of a policy, newest first. -/
def listVersions (id : String) (o : ListOptions) : Action (Page PolicyVersion) := do
  let _ ← require id
  Service.list .policyVersion PolicyVersion.ofJson? .policies "error searching policy versions" o
    [.childrenOf id] ⟨["version"], true⟩

/-! ## Writing -/

/-- Go on only with a source that the validator accepts. -/
def ensureValid (refusal : Rego.Refusal) (source : String) : Action Unit :=
  let verdict := Rego.validate refusal source
  ensure verdict.isValid (.invalidPolicy verdict.errors)

/-- What the validator says of a source. -/
def validate (refusal : Rego.Refusal) (source : String) : Action Rego.Verdict := do
  ensure (!source.isEmpty) (.required "policy rego content")
  return Rego.validate refusal source

/-- A new policy with its first version. -/
def create (refusal : Rego.Refusal) (draft : Draft) : Action Policy := do
  ensure (!draft.name.isEmpty) (.required "policy name")
  ensure (!draft.regoContent.isEmpty) (.required "policy rego content")
  ensureValid refusal draft.regoContent
  let id ← freshId
  let time ← now
  let version : PolicyVersion :=
    { id := versionId id 1, policyId := id, version := 1, regoContent := draft.regoContent,
      sourcePath := draft.sourcePath, message := draft.message, created := time }
  let policy : Policy :=
    { id := id, name := draft.name, description := draft.description, currentVersion := 1,
      deleted := false, created := time, updated := time, version? := none }
  let _ ← call "error creating policy"
    (.bulk Shelf.policies.index [.create policy.document, .create (versionDocument version)])
  return { policy with version? := some version }

/-- The version that a revision asks for, if its source is not the current one. -/
def nextVersion? (refusal : Rego.Refusal) (policy : Policy) (current : PolicyVersion)
    (revision : Revision) : Action (Option PolicyVersion) := do
  match revision.regoContent? with
  | none => return none
  | some source =>
    if source = current.regoContent then return none
    else
      ensureValid refusal source
      let number := current.version + 1
      return some {
        id := versionId policy.id number
        policyId := policy.id
        version := number
        regoContent := source
        sourcePath := revision.sourcePath?.getD current.sourcePath
        message := revision.message?.getD ""
        created := ← now }

/-- A policy after a revision. -/
def update (refusal : Rego.Refusal) (id : String) (revision : Revision) : Action Policy := do
  let policy ← require id
  ensure (!policy.deleted) (.deleted .policy id)
  let currentId := versionId id policy.currentVersion
  let current ← match ← findVersion? currentId with
    | some v => pure v
    | none => throw (.internal "error updating policy" (.lackingVersion id currentId))
  ensure (revision.name? ≠ some "") .emptyPolicyName
  let next? ← nextVersion? refusal policy current revision
  let changed := { policy with
    name := revision.name?.getD policy.name
    description := revision.description?.getD policy.description
    currentVersion := (next?.map PolicyVersion.version).getD policy.currentVersion
    updated := ← now }
  let _ ← call "error updating policy" (.bulk Shelf.policies.index
    (.update changed.document :: (next?.map fun v => Write.create (versionDocument v)).toList))
  return { changed with version? := some (next?.getD current) }

/-- Mark a policy as deleted, and drop the assignments of its versions. -/
def delete (id : String) : Action Unit := do
  let policy ← require id
  ensure (!policy.deleted) (.alreadyDeleted id)
  let assignments ← (AssignmentScope.policy id).assignments
  if !assignments.isEmpty then
    let _ ← call "error deleting policy assignments"
      (.bulk Shelf.policyAssignments.index (assignments.map fun a => .delete a.id))
  let _ ← call "error deleting policy" (.write Shelf.policies.index
    (.update { policy with deleted := true, updated := ← now }.document))

end Gatehouse.Policy
