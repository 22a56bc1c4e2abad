import Gatehouse.Resource.Version
import Gatehouse.RuleEngine.Basic

/-!
# Records of evaluations

A resource is evaluated against a group.  The record is a parent that says whether the resource
passed, and a child for each policy of the group that says what this policy found.  Records are
written once and never changed.
-/

namespace Gatehouse

open Json RuleEngine

/-- Who asked for an evaluation. -/
structure EvaluationSource where
  name : String := ""
  url : String := ""
  deriving DecidableEq, Repr

namespace EvaluationSource

/-- A source as a value. -/
def toJson (s : EvaluationSource) : Json := .object [("name", .string s.name), ("url", .string s.url)]

/-- The source that a value is. -/
def ofJson? (value : Json) : Option EvaluationSource := do
  let r ← Record.ofJson? ["name", "url"] value
  return {
    name := ← r.defaulted "name" string? ""
    url := ← r.defaulted "url" string? "" }

end EvaluationSource

/-- What came of evaluating a resource against a group. -/
structure ResourceEvaluation where
  id : String
  resourceVersion : ResourceVersion
  policyGroup : String
  /-- Every policy of the group passed. -/
  pass : Bool
  source : EvaluationSource
  created : Instant
  deriving DecidableEq, Repr

namespace ResourceEvaluation

/-- An evaluation as a value. -/
def toJson (e : ResourceEvaluation) : Json :=
  .object [("id", .string e.id), ("resourceVersion", e.resourceVersion.toJson),
    ("policyGroup", .string e.policyGroup), ("pass", .bool e.pass), ("source", e.source.toJson),
    ("created", e.created.toJson)]

/-- The evaluation that a value is. -/
def ofJson? (value : Json) : Option ResourceEvaluation := do
  let r ← Record.ofJson?
    ["id", "resourceVersion", "policyGroup", "pass", "source", "created"] value
  return {
    id := ← r.required "id" string?
    resourceVersion := ← r.required "resourceVersion" ResourceVersion.ofJson?
    policyGroup := ← r.required "policyGroup" string?
    pass := ← r.required "pass" bool?
    source := ← r.defaulted "source" EvaluationSource.ofJson? {}
    created := ← r.required "created" Instant.ofJson? }

end ResourceEvaluation

/-- What one policy found. -/
structure PolicyEvaluation where
  id : String
  resourceEvaluationId : String
  policyVersionId : String
  pass : Bool
  violations : List Violation
  created : Instant
  deriving DecidableEq, Repr

namespace PolicyEvaluation

/-- An evaluation as a value. -/
def toJson (e : PolicyEvaluation) : Json :=
  .object [("id", .string e.id), ("resourceEvaluationId", .string e.resourceEvaluationId),
    ("policyVersionId", .string e.policyVersionId), ("pass", .bool e.pass),
    ("violations", .array (e.violations.map Violation.toJson)), ("created", e.created.toJson)]

/-- The evaluation that a value is. -/
def ofJson? (value : Json) : Option PolicyEvaluation := do
  let r ← Record.ofJson?
    ["id", "resourceEvaluationId", "policyVersionId", "pass", "violations", "created"] value
  return {
    id := ← r.required "id" string?
    resourceEvaluationId := ← r.required "resourceEvaluationId" string?
    policyVersionId := ← r.required "policyVersionId" string?
    pass := ← r.required "pass" bool?
    violations := ← r.defaulted "violations" (items? Violation.ofJson?) []
    created := ← r.required "created" Instant.ofJson? }

end PolicyEvaluation

/-- A whole record: the parent and its children. -/
structure EvaluationRecord where
  resourceEvaluation : ResourceEvaluation
  policyEvaluations : List PolicyEvaluation
  deriving DecidableEq, Repr

namespace EvaluationRecord

/-- A record as a value. -/
def toJson (e : EvaluationRecord) : Json :=
  .object [("resourceEvaluation", e.resourceEvaluation.toJson),
    ("policyEvaluations", .array (e.policyEvaluations.map PolicyEvaluation.toJson))]

/-- The record that a value is. -/
def ofJson? (value : Json) : Option EvaluationRecord := do
  let r ← Record.ofJson? ["resourceEvaluation", "policyEvaluations"] value
  return {
    resourceEvaluation := ← r.required "resourceEvaluation" ResourceEvaluation.ofJson?
    policyEvaluations := ← r.required "policyEvaluations" (items? PolicyEvaluation.ofJson?) }

end EvaluationRecord

/-! ## Requests -/

/-- Asks to evaluate a resource against a group. -/
structure ResourceInquiry where
  resourceUri : String
  policyGroup : String
  source : EvaluationSource
  deriving DecidableEq, Repr

namespace ResourceInquiry

/-- A request as a value. -/
def toJson (q : ResourceInquiry) : Json :=
  .object [("resourceUri", .string q.resourceUri), ("policyGroup", .string q.policyGroup),
    ("source", q.source.toJson)]

/-- The request that a value is. -/
def ofJson? (value : Json) : Option ResourceInquiry := do
  let r ← Record.ofJson? ["resourceUri", "policyGroup", "source"] value
  return {
    resourceUri := ← r.required "resourceUri" string?
    policyGroup := ← r.required "policyGroup" string?
    source := ← r.defaulted "source" EvaluationSource.ofJson? {} }

end ResourceInquiry

/-- Asks to evaluate one policy, or one version of a policy, without a record. -/
structure PolicyInquiry where
  policyId : String
  resourceUri : String
  deriving DecidableEq, Repr

namespace PolicyInquiry

/-- A request as a value. -/
def toJson (q : PolicyInquiry) : Json :=
  .object [("policyId", .string q.policyId), ("resourceUri", .string q.resourceUri)]

/-- The request that a value is. -/
def ofJson? (value : Json) : Option PolicyInquiry := do
  let r ← Record.ofJson? ["policyId", "resourceUri"] value
  return {
    policyId := ← r.required "policyId" string?
    resourceUri := ← r.required "resourceUri" string? }

end PolicyInquiry

/-- What came of evaluating one policy. -/
structure PolicyFinding where
  pass : Bool
  /-- The version that was evaluated. -/
  policyVersionId : String
  resourceVersion : ResourceVersion
  violations : List Violation
  explanation? : Option (List Json)
  deriving Repr

namespace PolicyFinding

/-- A finding as a value. -/
def toJson (f : PolicyFinding) : Json :=
  .object <|
    [("pass", .bool f.pass), ("policyVersionId", .string f.policyVersionId),
     ("resourceVersion", f.resourceVersion.toJson),
     ("violations", .array (f.violations.map Violation.toJson))] ++
    memberOfSome "explanation" .array f.explanation?

/-- The finding that a value is. -/
def ofJson? (value : Json) : Option PolicyFinding := do
  let r ← Record.ofJson?
    ["pass", "policyVersionId", "resourceVersion", "violations", "explanation"] value
  return {
    pass := ← r.required "pass" bool?
    policyVersionId := ← r.required "policyVersionId" string?
    resourceVersion := ← r.required "resourceVersion" ResourceVersion.ofJson?
    violations := ← r.defaulted "violations" (items? Violation.ofJson?) []
    explanation? := ← r.optional "explanation" (items? some) }

end PolicyFinding

/-- Asks for the records of a resource. -/
structure HistoryInquiry where
  resourceUri : String
  filter : String
  pageSize : Nat
  pageToken : String
  deriving DecidableEq, Repr

namespace HistoryInquiry

/-- One past the greatest page size. -/
def pageSizeLimit : Nat := UInt64.size

/-- A request as a value. -/
def toJson (q : HistoryInquiry) : Json :=
  .object [("resourceUri", .string q.resourceUri), ("filter", .string q.filter),
    ("pageSize", .ofNat q.pageSize), ("pageToken", .string q.pageToken)]

/-- The request that a value is. -/
def ofJson? (value : Json) : Option HistoryInquiry := do
  let r ← Record.ofJson? ["resourceUri", "filter", "pageSize", "pageToken"] value
  return {
    resourceUri := ← r.required "resourceUri" string?
    filter := ← r.defaulted "filter" string? ""
    pageSize := ← r.defaulted "pageSize" (count? pageSizeLimit) 0
    pageToken := ← r.defaulted "pageToken" string? "" }

end HistoryInquiry
end Gatehouse
