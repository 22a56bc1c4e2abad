import Gatehouse.Group.Management
import Gatehouse.Policy.Management

/-!
# Managing assignments

What an assignment refers to is checked when it is written: the version has to be there, under a
policy and for a group that are not deleted.  An assignment can be moved to another version of its
policy, but not to another policy.
-/

namespace Gatehouse.PolicyAssignment

open Service Store

/-- The document of an assignment. -/
def document (a : PolicyAssignment) : Document := ⟨a.id, a.toJson, none⟩

/-- The policy whose version may be assigned to a group. -/
def checkReferences (versionId group : String) : Action String := do
  ensure (!versionId.isEmpty && !group.isEmpty) .requiredReferences
  match Policy.ofVersionId? versionId with
  | none => throw (.malformedVersionId versionId)
  | some (policyId, _) =>
    ensure (← Policy.findVersion? versionId).isSome (.notFound .policyVersion versionId)
    let policy ← Policy.require policyId
    ensure (!policy.deleted) (.deleted .policy policyId)
    let _ ← PolicyGroup.getActive group
    return policyId

/-- A new assignment. -/
def create (versionId group : String) : Action PolicyAssignment := do
  let policyId ← checkReferences versionId group
  let time ← now
  let assignment : PolicyAssignment := ⟨idOf policyId group, versionId, group, time, time⟩
  match ← attempt (.write Shelf.policyAssignments.index (.create assignment.document)) with
  | .ok _ => return assignment
  | .error (.alreadyExists ..) => throw (.alreadyAssigned policyId group)
  | .error e => throw (.internal "error creating policy assignment" (.store e))

/-- The assignment of an id. -/
def get (id : String) : Action PolicyAssignment := do
  ensure (!id.isEmpty) (.required "policy assignment id")
  match ← call "error fetching policy assignment" (.get Shelf.policyAssignments.index id) with
  | some d => decoded .policyAssignment ofJson? d
  | none => throw (.notFound .policyAssignment id)

/-- An assignment after it was moved to another version of its policy. -/
def update (id versionId : String) : Action PolicyAssignment := do
  let assignment ← get id
  let policyId ← checkReferences versionId assignment.policyGroup
  let assigned := ((Policy.ofVersionId? assignment.policyVersionId).map Prod.fst).getD ""
  ensure (policyId = assigned) (.foreignVersion versionId assigned)
  let changed := { assignment with policyVersionId := versionId, updated := ← now }
  let _ ← call "error updating policy assignment"
    (.write Shelf.policyAssignments.index (.update changed.document))
  return changed

/-- Drop an assignment. -/
def delete (id : String) : Action Unit := do
  ensure (!id.isEmpty) (.required "policy assignment id")
  match ← attempt (.write Shelf.policyAssignments.index (.delete id)) with
  | .ok _ => return ()
  | .error (.notFound ..) => throw (.notFound .policyAssignment id)
  | .error e => throw (.internal "error deleting policy assignment" (.store e))

/-- A page of the assignments of a scope, newest first. -/
def list (scope : String) (o : ListOptions) : Action (Page PolicyAssignment) := do
  let scope ← liftM (AssignmentScope.ofText? scope)
  Service.list .policyAssignment ofJson? .policyAssignments "error searching policy assignments" o
    [scope.query] newestFirst

end Gatehouse.PolicyAssignment
