import Gatehouse.Occurrence.Client
import Gatehouse.RuleEngine.Client
import Gatehouse.Service.Effect

/-!
# A service on a network

A service whose collaborators are peers on a network: what it asks of the occurrence store and of the
rule engine becomes exchanges over the wire, and all else stays as it is.
-/

namespace Gatehouse.Service

/-- A request of a service on a network. -/
inductive NetworkRequest where
  | store (c : Store.Call)
  | exchange (r : Http.Request)
  | now
  | freshId

/-- What a request is answered with. -/
abbrev NetworkRequest.Reply : NetworkRequest → Type
  | .store c => Except Store.StoreError c.Answer
  | .exchange _ => Except String Http.Response
  | .now => Instant
  | .freshId => String

/-- The requests of a service on a network and their replies. -/
abbrev network : Signature := ⟨NetworkRequest, NetworkRequest.Reply⟩

/-- The peers of a service. -/
structure Peers where
  occurrences : Occurrence.Client
  engine : RuleEngine.Client
  deriving DecidableEq, Repr

namespace Peers

/-- The peers that settings name. -/
def ofSettings (s : Settings) : Peers := ⟨.ofSettings s.occurrences, .ofSettings s.engine⟩

/-- An exchange over the wire of a network. -/
def overWire {ε α : Type} (c : Http.Client ε α) : Program network (Except ε α) :=
  (ExceptT.run c).reword fun (r : Http.Request) => Program.request (S := network) (.exchange r)

/-- What a request of the service is on a network. -/
def answer (p : Peers) : (r : Request) → Program network r.Reply
  | .store c => Program.request (S := network) (.store c)
  | .listOccurrences r => overWire (p.occurrences.list r)
  | .load policyId rego => overWire (p.engine.load policyId rego)
  | .evaluate rego input => overWire (p.engine.evaluate rego input)
  | .now => Program.request (S := network) .now
  | .freshId => Program.request (S := network) .freshId

/-- An action of the service on a network. -/
def perform {α : Type} (p : Peers) (a : Action α) : Program network (Except ServiceError α) :=
  (ExceptT.run a).reword p.answer

end Peers
end Gatehouse.Service
