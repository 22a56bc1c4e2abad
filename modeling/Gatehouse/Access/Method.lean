/-!
# Methods

The operations of the service, as far as access to them goes.
-/

namespace Gatehouse.Access

/-- An operation of the service. -/
inductive Method where
  | evaluateResource
  | getResourceEvaluation
  | listResourceEvaluations
  | evaluatePolicy
  | createPolicy
  | getPolicy
  | listPolicies
  | updatePolicy
  | deletePolicy
  | listPolicyVersions
  | validatePolicy
  | createPolicyGroup
  | getPolicyGroup
  | listPolicyGroups
  | updatePolicyGroup
  | deletePolicyGroup
  | createPolicyAssignment
  | getPolicyAssignment
  | updatePolicyAssignment
  | deletePolicyAssignment
  | listPolicyAssignments
  deriving DecidableEq, Repr

namespace Method

/-- Every method. -/
def all : List Method :=
  [evaluateResource, getResourceEvaluation, listResourceEvaluations, evaluatePolicy, createPolicy,
   getPolicy, listPolicies, updatePolicy, deletePolicy, listPolicyVersions, validatePolicy,
   createPolicyGroup, getPolicyGroup, listPolicyGroups, updatePolicyGroup, deletePolicyGroup,
   createPolicyAssignment, getPolicyAssignment, updatePolicyAssignment, deletePolicyAssignment,
   listPolicyAssignments]

/-- No method is missing from `all`. -/
theorem mem_all (m : Method) : m ∈ all := by cases m <;> decide

/-- The name of a method. -/
def name : Method → String
  | evaluateResource => "EvaluateResource"
  | getResourceEvaluation => "GetResourceEvaluation"
  | listResourceEvaluations => "ListResourceEvaluations"
  | evaluatePolicy => "EvaluatePolicy"
  | createPolicy => "CreatePolicy"
  | getPolicy => "GetPolicy"
  | listPolicies => "ListPolicies"
  | updatePolicy => "UpdatePolicy"
  | deletePolicy => "DeletePolicy"
  | listPolicyVersions => "ListPolicyVersions"
  | validatePolicy => "ValidatePolicy"
  | createPolicyGroup => "CreatePolicyGroup"
  | getPolicyGroup => "GetPolicyGroup"
  | listPolicyGroups => "ListPolicyGroups"
  | updatePolicyGroup => "UpdatePolicyGroup"
  | deletePolicyGroup => "DeletePolicyGroup"
  | createPolicyAssignment => "CreatePolicyAssignment"
  | getPolicyAssignment => "GetPolicyAssignment"
  | updatePolicyAssignment => "UpdatePolicyAssignment"
  | deletePolicyAssignment => "DeletePolicyAssignment"
  | listPolicyAssignments => "ListPolicyAssignments"

/-- The method of a name. -/
def ofName? (text : String) : Option Method := all.find? fun m => m.name = text

end Method
end Gatehouse.Access
