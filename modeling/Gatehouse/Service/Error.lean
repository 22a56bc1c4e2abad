import Gatehouse.Access.Method
import Gatehouse.Filter.Token
import Gatehouse.Occurrence.Listing
import Gatehouse.RuleEngine.Basic
import Gatehouse.Store.Error
import Gatehouse.Text.Quoted

/-!
# Failures of the service

Why an operation of the service fails, under which code callers see it, and in which words.

* **The caller's fault** is everything from a missing argument to a policy that does not compile.
* **The state's fault** is a thing that is not there, is there already, or is in the way.
* **Nobody's fault here** is an internal failure: a collaborator failed, or the store holds what the
  service never put there.  It names the operation that was under way and its cause.
-/

namespace Gatehouse.Service

open Gatehouse.Text

/-- How callers classify failures. -/
inductive Code where
  | invalidArgument
  | notFound
  | alreadyExists
  | failedPrecondition
  | permissionDenied
  | internal
  deriving DecidableEq, Repr

/-- The name of a code. -/
def Code.name : Code → String
  | .invalidArgument => "INVALID_ARGUMENT"
  | .notFound => "NOT_FOUND"
  | .alreadyExists => "ALREADY_EXISTS"
  | .failedPrecondition => "FAILED_PRECONDITION"
  | .permissionDenied => "PERMISSION_DENIED"
  | .internal => "INTERNAL"

/-- The things that the service keeps. -/
inductive Item where
  | policy
  | policyVersion
  | policyGroup
  | policyAssignment
  | resourceEvaluation
  | policyEvaluation
  deriving DecidableEq, Repr

/-- What a thing is called. -/
def Item.text : Item → String
  | .policy => "policy"
  | .policyVersion => "policy version"
  | .policyGroup => "policy group"
  | .policyAssignment => "policy assignment"
  | .resourceEvaluation => "resource evaluation"
  | .policyEvaluation => "policy evaluation"

/-- What is behind an internal failure. -/
inductive Cause where
  | store (e : Store.StoreError)
  | occurrences (e : Occurrence.ListError)
  | engine (e : RuleEngine.EngineError)
  /-- A policy without the version that it says is current. -/
  | lackingVersion (policy version : String)
  /-- An assignment of a version that is not there. -/
  | danglingAssignment (assignment version : String)
  /-- The store answered more or fewer searches than it was asked. -/
  | answerCount (expected actual : Nat)
  deriving DecidableEq, Repr

/-- The wording of a cause. -/
def Cause.message : Cause → String
  | .store e => e.message
  | .occurrences e => e.message
  | .engine e => e.message
  | .lackingVersion policy version => "policy " ++ policy ++ " has no version " ++ version
  | .danglingAssignment assignment version =>
    "assignment " ++ assignment ++ " references missing policy version " ++ version
  | .answerCount expected actual =>
    "expected " ++ toString expected ++ " search responses, got " ++ toString actual

/-- Why an operation failed. -/
inductive ServiceError where
  /-- An argument is empty that must not be. -/
  | required (what : String)
  /-- An assignment needs both a version and a group. -/
  | requiredReferences
  | emptyPolicyName
  | unknownResource (uri : String)
  | malformedVersionId (id : String)
  | unknownScope (scope : String)
  | malformedScope (scope : String)
  | malformedGroupName (name : String)
  /-- A version of one policy where another policy is assigned. -/
  | foreignVersion (version policy : String)
  | malformedFilter (e : Filter.FilterError)
  /-- A search that the store refused for what the caller asked. -/
  | refusedSearch (operation : String) (e : Store.StoreError)
  | invalidPolicy (errors : List String)
  | notFound (item : Item) (id : String)
  | alreadyAssigned (policy group : String)
  | groupExists (name : String)
  | deleted (item : Item) (id : String)
  | alreadyDeleted (policy : String)
  | nothingAssigned (group : String)
  | denied (subject : String) (method : Access.Method)
  | internal (operation : String) (cause : Cause)
  deriving DecidableEq, Repr

namespace ServiceError

/-- The code of a failure. -/
def code : ServiceError → Code
  | required _ | requiredReferences | emptyPolicyName | unknownResource _ | malformedVersionId _
  | unknownScope _ | malformedScope _ | malformedGroupName _ | foreignVersion .. | malformedFilter _
  | refusedSearch .. | invalidPolicy _ => .invalidArgument
  | notFound .. => .notFound
  | alreadyAssigned .. | groupExists _ => .alreadyExists
  | deleted .. | alreadyDeleted _ | nothingAssigned _ => .failedPrecondition
  | denied .. => .permissionDenied
  | internal .. => .internal

/-- The words of a failure. -/
def message : ServiceError → String
  | required what => what ++ " is required"
  | requiredReferences => "policy version id and policy group are required"
  | emptyPolicyName => "policy name cannot be empty"
  | unknownResource uri =>
    "failed to parse resource uri " ++ uri ++ ": unrecognized resource type"
  | malformedVersionId id =>
    "policy version id " ++ quoted id ++ " must have the form \x7bpolicyId\x7d.\x7bversion\x7d"
  | unknownScope scope =>
    "invalid assignment scope " ++ quoted scope ++
      ": expected policies/\x7bid\x7d or policy-groups/\x7bname\x7d"
  | malformedScope scope => "invalid assignment scope " ++ quoted scope
  | malformedGroupName name =>
    "policy group name " ++ quoted name ++ " must match ^[a-z0-9_-]+$"
  | foreignVersion version policy =>
    "policy version " ++ version ++ " does not belong to policy " ++ policy
  | malformedFilter e => "error parsing filter expression: " ++ e.message
  | refusedSearch operation e => operation ++ ": " ++ e.message
  | invalidPolicy errors =>
    "failed to compile the provided policy: " ++ "; ".intercalate errors
  | notFound item id => item.text ++ " " ++ id ++ " not found"
  | alreadyAssigned policy group =>
    "policy " ++ policy ++ " is already assigned to policy group " ++ group
  | groupExists name => "policy group " ++ name ++ " already exists"
  | deleted item id => item.text ++ " " ++ id ++ " has been deleted"
  | alreadyDeleted policy => "policy " ++ policy ++ " has already been deleted"
  | nothingAssigned group => "policy group " ++ group ++ " has no policy assignments"
  | denied subject method => subject ++ " is not allowed to call " ++ method.name
  | internal operation cause => operation ++ ": " ++ cause.message

/-- The operation that was under way when an internal failure arose. -/
def operation? : ServiceError → Option String
  | internal operation _ => some operation
  | _ => none

/-- A failed search is the caller's fault if the store refused the token or the filter. -/
def ofSearch (operation : String) : Store.StoreError → ServiceError
  | .invalidPageToken token => refusedSearch operation (.invalidPageToken token)
  | .invalidFilter message => refusedSearch operation (.invalidFilter message)
  | e => internal operation (.store e)

end ServiceError
end Gatehouse.Service
