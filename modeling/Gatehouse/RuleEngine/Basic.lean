import Gatehouse.Json.Record

/-!
# The rule engine

A rule engine holds policies under ids and evaluates them on an input.

* **Outcomes.**  A policy says whether it passes and which violations it found.  An engine that
  answers without a result has not passed anything: the result is then a failing one.
* **Failures** are about the engine, never about the policy's verdict.
-/

namespace Gatehouse.RuleEngine

open Json

/-- One finding of a policy. -/
structure Violation where
  id : String
  name : String
  description : String
  message : String
  link : String
  pass : Bool
  deriving DecidableEq, Repr

namespace Violation

/-- A finding as a value. -/
def toJson (v : Violation) : Json :=
  .object [("id", .string v.id), ("name", .string v.name), ("description", .string v.description),
    ("message", .string v.message), ("link", .string v.link), ("pass", .bool v.pass)]

/-- The finding that a value is. -/
def ofJson? (value : Json) : Option Violation := do
  let r ← Record.ofJson? ["id", "name", "description", "message", "link", "pass"] value
  return {
    id := ← r.defaulted "id" string? ""
    name := ← r.defaulted "name" string? ""
    description := ← r.defaulted "description" string? ""
    message := ← r.defaulted "message" string? ""
    link := ← r.defaulted "link" string? ""
    pass := ← r.defaulted "pass" bool? false }

end Violation

/-- What a policy says of an input. -/
structure Outcome where
  pass : Bool
  violations : List Violation
  deriving DecidableEq, Repr

namespace Outcome

/-- The outcome of a policy that says nothing. -/
def failing : Outcome := ⟨false, []⟩

/-- An outcome as a value. -/
def toJson (o : Outcome) : Json :=
  .object [("pass", .bool o.pass), ("violations", .array (o.violations.map Violation.toJson))]

/-- The outcome that a value is. -/
def ofJson? (value : Json) : Option Outcome := do
  let r ← Record.ofJson? ["pass", "violations"] value
  return {
    pass := ← r.defaulted "pass" bool? false
    violations := ← r.defaulted "violations" (items? Violation.ofJson?) [] }

end Outcome

/-- An evaluation of a policy: its outcome and, if it was asked for, how it came about. -/
structure Evaluation where
  result : Outcome
  explanation? : Option (List Json)
  deriving Repr

namespace Evaluation

/-- The policy passes. -/
def pass (e : Evaluation) : Bool := e.result.pass

/-- An evaluation as a value. -/
def toJson (e : Evaluation) : Json :=
  .object (("result", e.result.toJson) :: memberOfSome "explanation" .array e.explanation?)

/-- The evaluation that a value is. -/
def ofJson? (value : Json) : Option Evaluation := do
  let r ← Record.ofJson? ["result", "explanation"] value
  return {
    result := ← r.defaulted "result" Outcome.ofJson? .failing
    explanation? := ← r.optional "explanation" (items? some) }

/-- The evaluation in an engine's answer, where the result may be `null` or missing. -/
def ofAnswer? (value : Json) : Option Evaluation := do
  let r ← Record.ofJson? ["result", "explanation"] value
  let result? ← r.optional "result" Outcome.ofJson?
  return {
    result := result?.getD .failing
    explanation? := ← r.optional "explanation" (items? some) }

end Evaluation

/-- Why there is no evaluation. -/
inductive EngineError where
  /-- It could not be found out whether a policy is loaded. -/
  | lookingUp (policyId message : String)
  /-- A policy could not be loaded. -/
  | publishing (policyId message : String)
  /-- The engine could not be reached, or answered with a status that is no success. -/
  | http (status? : Option Nat) (message : String)
  /-- The answer could not be read. -/
  | badResponse (message : String)
  /-- The policy cannot be addressed. -/
  | invalidPolicy (message : String)
  | config (message : String)
  deriving DecidableEq, Repr

namespace EngineError

/-- The message of a failure. -/
def message : EngineError → String
  | lookingUp policyId message => "error checking if policy " ++ policyId ++ " exists: " ++ message
  | publishing policyId message => "error publishing policy " ++ policyId ++ ": " ++ message
  | http _ message => "http error: " ++ message
  | badResponse message => "bad response from rule engine: " ++ message
  | invalidPolicy message => "invalid policy: " ++ message
  | config message => "configuration error: " ++ message

/-- The status that the engine answered with. -/
def status? : EngineError → Option Nat
  | http status? _ => status?
  | _ => none

end EngineError
end Gatehouse.RuleEngine
