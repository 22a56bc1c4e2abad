import Gatehouse.Assignment.Basic
import Gatehouse.Service.Listing

/-!
# Finding assignments

The assignments of a policy are those whose id starts with the policy's; the assignments of a group
are those that name it.
-/

namespace Gatehouse

open Service Store

/-- Assignments come newest first. -/
def PolicyAssignment.newestFirst : SortBy := ⟨["created"], true⟩

/-- Selects the assignments of a scope. -/
def AssignmentScope.query : AssignmentScope → Query
  | policy id => .filter (.call ["id"] .startsWith (PolicyAssignment.idStart id))
  | group name => .term ["policyGroup"] (.string name)

/-- All assignments of a scope. -/
def AssignmentScope.assignments (scope : AssignmentScope) : Action (List PolicyAssignment) := do
  let request : SearchRequest :=
    { query := scope.query, sort? := some PolicyAssignment.newestFirst }
  let found ← call "error searching policy assignments"
    (.search Shelf.policyAssignments.index request)
  (SearchResponse.hits found).mapM (decoded .policyAssignment PolicyAssignment.ofJson?)

end Gatehouse
