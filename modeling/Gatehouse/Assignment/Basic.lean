import Gatehouse.Service.Error
import Gatehouse.Text.Cut
import Gatehouse.Time.Json

/-!
# Policy assignments

An assignment says which version of a policy a group enforces.  Its id is made of the policy and the
group, so a policy is assigned to a group at most once, in one version.
-/

namespace Gatehouse

open Json Service

/-- The version of a policy that a group enforces. -/
structure PolicyAssignment where
  id : String
  policyVersionId : String
  policyGroup : String
  created : Instant
  updated : Instant
  deriving DecidableEq, Repr

namespace PolicyAssignment

/-- What the ids of all assignments of a policy start with. -/
def idStart (policyId : String) : String := "policies/" ++ policyId ++ "/"

/-- The id of the assignment of a policy to a group. -/
def idOf (policyId group : String) : String :=
  idStart policyId ++ "assignments/policy-groups/" ++ group

/-- An assignment as a value. -/
def toJson (a : PolicyAssignment) : Json :=
  .object [("id", .string a.id), ("policyVersionId", .string a.policyVersionId),
    ("policyGroup", .string a.policyGroup), ("created", a.created.toJson),
    ("updated", a.updated.toJson)]

/-- The assignment that a value is. -/
def ofJson? (value : Json) : Option PolicyAssignment := do
  let r ← Record.ofJson? ["id", "policyVersionId", "policyGroup", "created", "updated"] value
  return {
    id := ← r.required "id" string?
    policyVersionId := ← r.required "policyVersionId" string?
    policyGroup := ← r.required "policyGroup" string?
    created := ← r.required "created" Instant.ofJson?
    updated := ← r.required "updated" Instant.ofJson? }

end PolicyAssignment

/-- Which assignments are listed: those of a policy, or those of a group. -/
inductive AssignmentScope where
  | policy (id : String)
  | group (name : String)
  deriving DecidableEq, Repr

namespace AssignmentScope

/-- What a scope is the scope of. -/
def subject : AssignmentScope → String
  | policy id => id
  | group name => name

/-- The scope that a text names, whether or not its subject can be one. -/
def named? (text : String) : Option AssignmentScope :=
  match Text.dropStart "policies/" text.toList with
  | some id => some (policy (String.ofList id))
  | none => (Text.dropStart "policy-groups/" text.toList).map fun name => group (String.ofList name)

/-- The scope of a text: `policies/` and an id, or `policy-groups/` and a name. -/
def ofText? (text : String) : Except ServiceError AssignmentScope :=
  match named? text with
  | none => .error (.unknownScope text)
  | some scope =>
    if scope.subject.isEmpty || scope.subject.toList.contains '/' then .error (.malformedScope text)
    else .ok scope

end AssignmentScope
end Gatehouse
