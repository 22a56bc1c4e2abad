import Gatehouse.Access.Caller
import Gatehouse.Access.Method
import Gatehouse.Access.Permission
import Gatehouse.Table

/-!
# The gate

Who may call what.

1. **Requirements.**  Each method has a row of permissions that it requires.  A method without a row
   may not be called by anyone; a method with an empty row by everyone.  A later row of a method
   takes the place of an earlier one.
2. **Grants.**  Roles are granted permissions, and grants to a role add up.  A caller holds what any
   of its roles was granted.
3. **Decision.**  A call is allowed if the caller holds every permission that its method requires.
   How it is decided who holds what is a parameter, `Authorizer`, of which the grants are one.
-/

namespace Gatehouse.Access

/-- Decides whether a caller holds all of the given permissions. -/
abbrev Authorizer := Caller → List Permission → Bool

/-! ## Requirements -/

/-- The permissions that methods require. -/
structure Requirements where
  table : Table Method (List Permission)
  deriving Repr

namespace Requirements

/-- No method may be called. -/
def empty : Requirements := ⟨.empty⟩

/-- The requirements with a row for a method. -/
def require (r : Requirements) (method : Method) (permissions : List Permission) : Requirements :=
  ⟨r.table.set method permissions⟩

/-- The row of a method. -/
def row? (r : Requirements) (method : Method) : Option (List Permission) := r.table.get? method

/-- A caller may call a method. -/
def allow (r : Requirements) (holds : Authorizer) (caller : Caller) (method : Method) : Bool :=
  match r.row? method with
  | some permissions => holds caller permissions
  | none => false

/-- What each method requires, unless configured otherwise. -/
def standard : Requirements :=
  empty
    |>.require .evaluateResource [.resourceEvaluate]
    |>.require .getResourceEvaluation [.resourceEvaluationRead]
    |>.require .listResourceEvaluations [.resourceEvaluationRead]
    |>.require .evaluatePolicy [.policyEvaluate]
    |>.require .createPolicy [.policyWrite]
    |>.require .getPolicy [.policyRead]
    |>.require .listPolicies [.policyRead]
    |>.require .updatePolicy [.policyWrite]
    |>.require .deletePolicy [.policyDelete]
    |>.require .listPolicyVersions [.policyRead]
    |>.require .validatePolicy [.policyValidate]
    |>.require .createPolicyGroup [.policyGroupWrite]
    |>.require .getPolicyGroup [.policyGroupRead]
    |>.require .listPolicyGroups [.policyGroupRead]
    |>.require .updatePolicyGroup [.policyGroupWrite]
    |>.require .deletePolicyGroup [.policyGroupDelete]
    |>.require .createPolicyAssignment [.policyAssignmentWrite]
    |>.require .getPolicyAssignment [.policyAssignmentRead]
    |>.require .updatePolicyAssignment [.policyAssignmentWrite]
    |>.require .deletePolicyAssignment [.policyAssignmentDelete]
    |>.require .listPolicyAssignments [.policyAssignmentRead]

/-- No method is without a row. -/
theorem standard_isSome (m : Method) : (standard.row? m).isSome := by cases m <;> decide

end Requirements

/-! ## Grants -/

/-- The permissions that roles were granted. -/
structure Grants where
  table : Table Role (List Permission)
  deriving Repr

namespace Grants

/-- Nothing was granted. -/
def empty : Grants := ⟨.empty⟩

/-- The permissions of a role. -/
def held (g : Grants) (role : Role) : List Permission := (g.table.get? role).getD []

/-- The grants with more permissions for a role. -/
def grant (g : Grants) (role : Role) (permissions : List Permission) : Grants :=
  ⟨g.table.set role (g.held role ++ permissions)⟩

/-- A caller holds all of the given permissions. -/
def holds (g : Grants) : Authorizer := fun caller permissions =>
  permissions.all fun p => caller.roles.any fun r => (g.held r).contains p

/-- What those who write applications may do. -/
def developing : List Permission :=
  [.resourceEvaluationRead, .policyEvaluate, .policyRead, .policyValidate, .policyGroupRead,
   .policyAssignmentRead]

/-- What each role may do, unless configured otherwise. -/
def standard : Grants :=
  empty
    |>.grant .anonymous []
    |>.grant .enforcer [.resourceEvaluate, .resourceEvaluationRead, .policyGroupRead]
    |>.grant .applicationDeveloper developing
    |>.grant .policyDeveloper developing
    |>.grant .policyDeveloper [.policyWrite]
    |>.grant .policyAdministrator (Permission.all.filter (· ≠ .resourceEvaluate))
    |>.grant .administrator Permission.all

end Grants

/-! ## Decisions -/

example : Requirements.standard.allow Grants.standard.holds ⟨"ci", [.enforcer]⟩ .evaluateResource =
    true := by decide
example : Requirements.standard.allow Grants.standard.holds ⟨"ci", [.enforcer]⟩ .createPolicy =
    false := by decide
example : Requirements.standard.allow Grants.standard.holds .anonymous .getPolicy = false := by decide

end Gatehouse.Access
