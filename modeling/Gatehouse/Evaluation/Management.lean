import Gatehouse.Assignment.Management
import Gatehouse.Evaluation.Basic
import Gatehouse.Resource.Resolution

/-!
# Evaluating

1. **Input.**  Every policy sees the same input: the occurrences of the resource and its relatives.
2. **Policies.**  The policies of a group are those assigned to it, newest assignment first.  Each is
   loaded in the rule engine under the id of its version and then evaluated.
3. **Record (the crux).**  Nothing is written until every policy has answered; then the parent and
   all children are written in one bulk.  So a record is whole or not there.
4. **Reading back.**  A record's children are found through their join.  Parent and children are
   asked for together, so that they are of one state of the store.
-/

namespace Gatehouse.EvaluationRecord

open Service Store RuleEngine Resource

/-- The relation of parents in their families. -/
def relation : String := "resource"

/-- The relation of children in their families. -/
def childRelation : String := "policy"

/-- The document of a parent. -/
def document (e : ResourceEvaluation) : Document :=
  ⟨e.id, e.toJson, some (.ofParent joinField relation)⟩

/-- The document of a child. -/
def childDocument (e : PolicyEvaluation) : Document :=
  ⟨e.id, e.toJson, some (.ofChild joinField childRelation e.resourceEvaluationId)⟩

/-- What policies see of a resource. -/
def input (resolved : Resolved) : Json :=
  .object [("occurrences", .array (resolved.occurrences.map Occurrence.toJson))]

/-- Load a version in the rule engine and evaluate it. -/
def run (version : PolicyVersion) (input : Json) : Action Evaluation := do
  load version.id version.regoContent
  evaluate version.regoContent input

/-! ## Evaluating a resource -/

/-- The child of a record for one assignment. -/
def evaluateAssigned (recordId : String) (time : Instant) (input : Json) (a : PolicyAssignment) :
    Action PolicyEvaluation := do
  match ← Policy.findVersion? a.policyVersionId with
  | none => throw (.internal "error fetching assigned policy version"
      (.danglingAssignment a.id a.policyVersionId))
  | some version =>
    let evaluation ← run version input
    return {
      id := ← freshId
      resourceEvaluationId := recordId
      policyVersionId := version.id
      pass := evaluation.pass
      violations := evaluation.result.violations
      created := time }

/-- A new record of a resource against a group. -/
def create (q : ResourceInquiry) : Action EvaluationRecord := do
  ensure (!q.resourceUri.isEmpty) (.required "resource uri")
  ensure (!q.policyGroup.isEmpty) (.required "policy group")
  let resolved ← resolveKnown q.resourceUri
  let group ← PolicyGroup.getActive q.policyGroup
  let assignments ← (AssignmentScope.group group.name).assignments
  ensure (!assignments.isEmpty) (.nothingAssigned group.name)
  let time ← now
  let id ← freshId
  let children ← assignments.mapM (evaluateAssigned id time (input resolved))
  let parent : ResourceEvaluation :=
    { id := id, resourceVersion := resolved.resourceVersion, policyGroup := group.name,
      pass := children.all PolicyEvaluation.pass, source := q.source, created := time }
  let _ ← call "error saving evaluation results" (.bulk Shelf.evaluations.index
    (.create (document parent) :: children.map fun c => .create (childDocument c)))
  return ⟨parent, children⟩

/-! ## Evaluating a policy -/

/-- What one policy finds, without a record. -/
def evaluatePolicy (q : PolicyInquiry) : Action PolicyFinding := do
  ensure (!q.policyId.isEmpty) (.required "policy id")
  ensure (!q.resourceUri.isEmpty) (.required "resource uri")
  let (_, version) ← Policy.getWithVersion q.policyId
  let resolved ← resolveKnown q.resourceUri
  let evaluation ← run version (input resolved)
  return {
    pass := evaluation.pass
    policyVersionId := version.id
    resourceVersion := resolved.resourceVersion
    violations := evaluation.result.violations
    explanation? := evaluation.explanation? }

/-! ## Records -/

/-- The search for the children of a record. -/
def childSearch (id : String) : SearchRequest := { query := .childrenOf id }

/-- The children that a search found. -/
def children (found : SearchResponse) : Action (List PolicyEvaluation) :=
  found.hits.mapM (decoded .policyEvaluation PolicyEvaluation.ofJson?)

/-- The record of an id. -/
def get (id : String) : Action EvaluationRecord := do
  ensure (!id.isEmpty) (.required "resource evaluation id")
  let parentSearch : SearchRequest :=
    { query := .every [.hasRelation relation, .term ["id"] (.string id)] }
  let operation := "error fetching resource evaluation"
  let answers ← call operation (.searchAll Shelf.evaluations.index [parentSearch, childSearch id])
  match (answers : List SearchResponse) with
  | [parents, found] =>
    match parents.hits with
    | [] => throw (.notFound .resourceEvaluation id)
    | d :: _ =>
      let parent ← decoded .resourceEvaluation ResourceEvaluation.ofJson? d
      return ⟨parent, ← children found⟩
  | _ => throw (.internal operation (.answerCount 2 (List.length answers)))

/-- A page of the records of a resource, newest first. -/
def list (q : HistoryInquiry) : Action (Page EvaluationRecord) := do
  ensure (!q.resourceUri.isEmpty) (.required "resource uri")
  let page ← Service.list .resourceEvaluation ResourceEvaluation.ofJson? .evaluations
    "error searching resource evaluations" ⟨q.filter, q.pageSize, q.pageToken⟩
    [.hasRelation relation, .term ["resourceVersion", "version"] (.string q.resourceUri)]
    ⟨["created"], true⟩
  let parents := page.items
  if parents.isEmpty then return ⟨[], page.nextPageToken⟩
  let operation := "error fetching policy evaluations"
  let answers ← call operation
    (.searchAll Shelf.evaluations.index (parents.map fun p => childSearch p.id))
  let found : List SearchResponse := answers
  ensure (found.length = parents.length)
    (.internal operation (.answerCount parents.length found.length))
  let families ← found.mapM children
  return ⟨(parents.zip families).map fun (p, cs) => ⟨p, cs⟩, page.nextPageToken⟩

end Gatehouse.EvaluationRecord
