/-!
# Permissions

What a caller may be allowed to do.  A permission has a name in configuration and a text in answers.
-/

namespace Gatehouse.Access

/-- What a caller may do. -/
inductive Permission where
  | resourceEvaluate
  | resourceEvaluationRead
  | policyEvaluate
  | policyRead
  | policyWrite
  | policyDelete
  | policyValidate
  | policyGroupRead
  | policyGroupWrite
  | policyGroupDelete
  | policyAssignmentRead
  | policyAssignmentWrite
  | policyAssignmentDelete
  deriving DecidableEq, Repr

namespace Permission

/-- Every permission, in the order of answers. -/
def all : List Permission :=
  [resourceEvaluate, resourceEvaluationRead, policyEvaluate, policyRead, policyWrite, policyDelete,
   policyValidate, policyGroupRead, policyGroupWrite, policyGroupDelete, policyAssignmentRead,
   policyAssignmentWrite, policyAssignmentDelete]

/-- No permission is missing from `all`. -/
theorem mem_all (p : Permission) : p ∈ all := by cases p <;> decide

/-- The text of a permission. -/
def text : Permission → String
  | resourceEvaluate => "resource:evaluate"
  | resourceEvaluationRead => "resource-evaluation:read"
  | policyEvaluate => "policy:evaluate"
  | policyRead => "policy:read"
  | policyWrite => "policy:write"
  | policyDelete => "policy:delete"
  | policyValidate => "policy:validate"
  | policyGroupRead => "policy-group:read"
  | policyGroupWrite => "policy-group:write"
  | policyGroupDelete => "policy-group:delete"
  | policyAssignmentRead => "policy-assignment:read"
  | policyAssignmentWrite => "policy-assignment:write"
  | policyAssignmentDelete => "policy-assignment:delete"

/-- The name of a permission. -/
def name : Permission → String
  | resourceEvaluate => "ResourceEvaluate"
  | resourceEvaluationRead => "ResourceEvaluationRead"
  | policyEvaluate => "PolicyEvaluate"
  | policyRead => "PolicyRead"
  | policyWrite => "PolicyWrite"
  | policyDelete => "PolicyDelete"
  | policyValidate => "PolicyValidate"
  | policyGroupRead => "PolicyGroupRead"
  | policyGroupWrite => "PolicyGroupWrite"
  | policyGroupDelete => "PolicyGroupDelete"
  | policyAssignmentRead => "PolicyAssignmentRead"
  | policyAssignmentWrite => "PolicyAssignmentWrite"
  | policyAssignmentDelete => "PolicyAssignmentDelete"

/-- The permission of a name. -/
def ofName? (text : String) : Option Permission := all.find? fun p => p.name = text

end Permission
end Gatehouse.Access
