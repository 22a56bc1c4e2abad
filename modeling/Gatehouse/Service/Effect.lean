import Gatehouse.Service.Error
import Gatehouse.Store.Call

/-!
# What the service asks for

The service itself holds nothing.  It asks a store, an occurrence store and a rule engine, any of
which may fail, and it asks for the time and for fresh ids.  An `Action` is a program over these
requests that ends with a result or a failure of the service.
-/

namespace Gatehouse.Service

/-- A request of the service. -/
inductive Request where
  | store (c : Store.Call)
  | listOccurrences (r : Occurrence.ListRequest)
  /-- Have a policy loaded in the rule engine under an id. -/
  | load (policyId rego : String)
  /-- Evaluate a policy on an input. -/
  | evaluate (rego : String) (input : Json)
  | now
  | freshId

/-- What a request is answered with. -/
abbrev Request.Reply : Request → Type
  | .store c => Except Store.StoreError c.Answer
  | .listOccurrences _ => Except Occurrence.ListError Occurrence.ListResponse
  | .load .. => Except RuleEngine.EngineError Unit
  | .evaluate .. => Except RuleEngine.EngineError RuleEngine.Evaluation
  | .now => Instant
  | .freshId => String

/-- The requests of the service and their replies. -/
abbrev effects : Signature := ⟨Request, Request.Reply⟩

/-- A program that ends with a result or a failure of the service. -/
abbrev Action := ExceptT ServiceError (Program effects)

/-! ## Requests -/

/-- A call to the store; the caller sees its failure. -/
def attempt (c : Store.Call) : Action (Except Store.StoreError c.Answer) :=
  ExceptT.lift (Program.request (S := effects) (.store c))

/-- A call to the store whose failure is an internal one. -/
def call (operation : String) (c : Store.Call) : Action c.Answer := do
  match ← attempt c with
  | .ok answer => return answer
  | .error e => throw (.internal operation (.store e))

/-- A page of occurrences. -/
def listOccurrences (operation : String) (r : Occurrence.ListRequest) :
    Action Occurrence.ListResponse := do
  let reply : Except _ _ ← ExceptT.lift (Program.request (S := effects) (.listOccurrences r))
  match reply with
  | .ok page => return page
  | .error e => throw (.internal operation (.occurrences e))

/-- Have a policy loaded. -/
def load (policyId rego : String) : Action Unit := do
  let reply : Except _ _ ← ExceptT.lift (Program.request (S := effects) (.load policyId rego))
  match reply with
  | .ok () => return ()
  | .error e => throw (.internal "error initializing policy in rule engine" (.engine e))

/-- Evaluate a policy. -/
def evaluate (rego : String) (input : Json) : Action RuleEngine.Evaluation := do
  let reply : Except _ _ ← ExceptT.lift (Program.request (S := effects) (.evaluate rego input))
  match reply with
  | .ok evaluation => return evaluation
  | .error e => throw (.internal "error evaluating policy" (.engine e))

/-- The time. -/
def now : Action Instant := ExceptT.lift (Program.request (S := effects) .now)

/-- An id that was never given before. -/
def freshId : Action String := ExceptT.lift (Program.request (S := effects) .freshId)

/-- Go on only if something holds. -/
def ensure (condition : Bool) (otherwise : ServiceError) : Action Unit :=
  if condition then pure () else throw otherwise

/-- What a stored document writes; another shape is an internal failure. -/
def decoded {α : Type} (what : Item) (read : Json → Option α) (d : Store.Document) : Action α :=
  match read d.source with
  | some a => pure a
  | none => throw (.internal ("error decoding " ++ what.text)
      (.store (.serialization ("document " ++ d.id ++ " is no " ++ what.text))))

end Gatehouse.Service
