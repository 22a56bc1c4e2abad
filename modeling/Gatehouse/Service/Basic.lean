import Gatehouse.Access.Gate
import Gatehouse.Evaluation.Management

/-!
# The service

Everything that the service offers, behind one gate.

1. **Operations** are a type: what is asked, with its arguments, and for each operation the type of
   its result.
2. **The gate.**  Every operation has its method, and every call asks the gate for that method before
   anything else.  A call that is denied asks nothing of anyone.
3. **Configuration.**  Who may do what, and which sources the rule engine would refuse, are given
   when the service is made.
-/

namespace Gatehouse

open Service Access

/-- What the service is made with. -/
structure Service where
  requirements : Requirements := .standard
  holds : Authorizer := Grants.standard.holds
  refusal : Rego.Refusal

namespace Service

/-- What can be asked of the service. -/
inductive Operation where
  | evaluateResource (q : ResourceInquiry)
  | getResourceEvaluation (id : String)
  | listResourceEvaluations (q : HistoryInquiry)
  | evaluatePolicy (q : PolicyInquiry)
  | createPolicy (draft : Policy.Draft)
  | getPolicy (id : String)
  | listPolicies (o : ListOptions)
  | updatePolicy (id : String) (revision : Policy.Revision)
  | deletePolicy (id : String)
  | listPolicyVersions (id : String) (o : ListOptions)
  | validatePolicy (source : String)
  | createPolicyGroup (name description : String)
  | getPolicyGroup (name : String)
  | listPolicyGroups (o : ListOptions)
  | updatePolicyGroup (name description : String)
  | deletePolicyGroup (name : String)
  | createPolicyAssignment (versionId group : String)
  | getPolicyAssignment (id : String)
  | updatePolicyAssignment (id versionId : String)
  | deletePolicyAssignment (id : String)
  | listPolicyAssignments (scope : String) (o : ListOptions)

namespace Operation

/-- What an operation results in. -/
def Result : Operation → Type
  | evaluateResource _ => EvaluationRecord
  | getResourceEvaluation _ => EvaluationRecord
  | listResourceEvaluations _ => Page EvaluationRecord
  | evaluatePolicy _ => PolicyFinding
  | createPolicy _ => Policy
  | getPolicy _ => Policy
  | listPolicies _ => Page Policy
  | updatePolicy .. => Policy
  | deletePolicy _ => Unit
  | listPolicyVersions .. => Page PolicyVersion
  | validatePolicy _ => Rego.Verdict
  | createPolicyGroup .. => PolicyGroup
  | getPolicyGroup _ => PolicyGroup
  | listPolicyGroups _ => Page PolicyGroup
  | updatePolicyGroup .. => PolicyGroup
  | deletePolicyGroup _ => Unit
  | createPolicyAssignment .. => PolicyAssignment
  | getPolicyAssignment _ => PolicyAssignment
  | updatePolicyAssignment .. => PolicyAssignment
  | deletePolicyAssignment _ => Unit
  | listPolicyAssignments .. => Page PolicyAssignment

/-- The method that an operation is to the gate. -/
def method : Operation → Method
  | evaluateResource _ => .evaluateResource
  | getResourceEvaluation _ => .getResourceEvaluation
  | listResourceEvaluations _ => .listResourceEvaluations
  | evaluatePolicy _ => .evaluatePolicy
  | createPolicy _ => .createPolicy
  | getPolicy _ => .getPolicy
  | listPolicies _ => .listPolicies
  | updatePolicy .. => .updatePolicy
  | deletePolicy _ => .deletePolicy
  | listPolicyVersions .. => .listPolicyVersions
  | validatePolicy _ => .validatePolicy
  | createPolicyGroup .. => .createPolicyGroup
  | getPolicyGroup _ => .getPolicyGroup
  | listPolicyGroups _ => .listPolicyGroups
  | updatePolicyGroup .. => .updatePolicyGroup
  | deletePolicyGroup _ => .deletePolicyGroup
  | createPolicyAssignment .. => .createPolicyAssignment
  | getPolicyAssignment _ => .getPolicyAssignment
  | updatePolicyAssignment .. => .updatePolicyAssignment
  | deletePolicyAssignment _ => .deletePolicyAssignment
  | listPolicyAssignments .. => .listPolicyAssignments

/-- An operation without the gate. -/
def action (refusal : Rego.Refusal) : (o : Operation) → Action o.Result
  | evaluateResource q => EvaluationRecord.create q
  | getResourceEvaluation id => EvaluationRecord.get id
  | listResourceEvaluations q => EvaluationRecord.list q
  | evaluatePolicy q => EvaluationRecord.evaluatePolicy q
  | createPolicy draft => Policy.create refusal draft
  | getPolicy id => Policy.get id
  | listPolicies o => Policy.list o
  | updatePolicy id revision => Policy.update refusal id revision
  | deletePolicy id => Policy.delete id
  | listPolicyVersions id o => Policy.listVersions id o
  | validatePolicy source => Policy.validate refusal source
  | createPolicyGroup name description => PolicyGroup.create name description
  | getPolicyGroup name => PolicyGroup.get name
  | listPolicyGroups o => PolicyGroup.list o
  | updatePolicyGroup name description => PolicyGroup.update name description
  | deletePolicyGroup name => PolicyGroup.delete name
  | createPolicyAssignment versionId group => PolicyAssignment.create versionId group
  | getPolicyAssignment id => PolicyAssignment.get id
  | updatePolicyAssignment id versionId => PolicyAssignment.update id versionId
  | deletePolicyAssignment id => PolicyAssignment.delete id
  | listPolicyAssignments scope o => PolicyAssignment.list scope o

end Operation

/-- The gate: nothing, or a denial. -/
def authorize (s : Service) (caller : Caller) (method : Method) : Except ServiceError Unit :=
  if s.requirements.allow s.holds caller method then .ok ()
  else .error (.denied caller.subject method)

/-- What a caller gets who asks for an operation. -/
def perform (s : Service) (caller : Caller) (o : Operation) : Action o.Result := do
  liftM (s.authorize caller o.method)
  o.action s.refusal

end Service
end Gatehouse
