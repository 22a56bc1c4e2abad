import Gatehouse.Http.Exchange
import Gatehouse.Rego.Validation
import Gatehouse.RuleEngine.Basic
import Gatehouse.Settings

/-!
# Talking to a rule engine

A rule engine holds policies under `/v1/policies` and the documents that they define under `/v1/data`.

* **Loading** asks whether there is a policy of an id, and only if there is none puts it there.  Ids
  are ids of versions, which never change, so what is there is what would be put.
* **Evaluating** posts the input to the document of the policy's package.  The engine may be asked to
  explain itself.
* **Failures.**  A status that was not expected is a failure with the words of the response.
-/

namespace Gatehouse.RuleEngine

open Http

/-- How a rule engine is talked to. -/
structure Client where
  /-- The address, without slashes at its end. -/
  base : String
  /-- Ask for explanations. -/
  explain : Bool
  deriving DecidableEq, Repr

namespace Client

/-- The client that settings describe. -/
def ofSettings (s : EngineSettings) : Client := ⟨baseUrl s.url, s.explain⟩

/-- How requests are signed. -/
def userAgent : String := "rode-opa/0.6.0"

/-- Where the policy of an id is. -/
def policyAddress (c : Client) (policyId : String) : String := c.base ++ "/v1/policies/" ++ policyId

/-- Where the document of a path is. -/
def dataAddress (c : Client) (path : String) : String :=
  c.base ++ "/v1/data/" ++ path ++ if c.explain then "?explain=full" else ""

/-- A response or the failure to get one. -/
def exchange (verb : Verb) (address : String) (content? : Option Content) :
    Http.Client EngineError Response :=
  ExceptT.adapt (fun (e : Failure) => .http none e.message)
    (Request.sendTo verb address userAgent content?)

/-- The failure that a response is. -/
def refused (r : Response) : EngineError := .http (some r.status) r.complaint

/-- There is a policy of an id. -/
def isLoaded (c : Client) (policyId : String) : Http.Client EngineError Bool := do
  let r ← exchange .get (c.policyAddress policyId) none
  if r.status = 200 then return true
  else if r.status = 404 then return false
  else throw (refused r)

/-- Put a policy under an id. -/
def publish (c : Client) (policyId rego : String) : Http.Client EngineError Unit := do
  let r ← exchange .put (c.policyAddress policyId) (some (.plain rego))
  if r.isSuccess then return () else throw (refused r)

/-- See to it that there is a policy of an id. -/
def load (c : Client) (policyId rego : String) : Http.Client EngineError Unit := do
  let loaded ← ExceptT.adapt (fun (e : EngineError) => EngineError.lookingUp policyId e.message)
    (c.isLoaded policyId)
  if loaded then return ()
  else
    ExceptT.adapt (fun (e : EngineError) => EngineError.publishing policyId e.message)
      (c.publish policyId rego)

/-- Evaluate a policy on an input. -/
def evaluate (c : Client) (rego : String) (input : Json) : Http.Client EngineError Evaluation := do
  match Rego.packagePath? rego with
  | .error e => throw (.invalidPolicy e.message)
  | .ok path =>
    let r ← exchange .post (c.dataAddress path) (some (.json (.object [("input", input)])))
    if !r.isSuccess then throw (refused r)
    else
      match Json.decode? Evaluation.ofAnswer? r.content with
      | some evaluation => return evaluation
      | none => throw (.badResponse "failed to decode evaluation response: no evaluation")

end Client
end Gatehouse.RuleEngine
