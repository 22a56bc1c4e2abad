import Gatehouse.Rego.Walk

/-!
# The contract of a policy

A policy that can be evaluated has a rule `pass` and a rule `violations`, and every rule of the name
`violations` is a partial set of objects `result` that say what was violated.

The shape is checked by looking: in each body of such a rule there is, at some depth, a term
`result := {..}` or `result = {..}`, in either order, whose object has all of the required keys.  At
some depth means anywhere below the body, comprehensions and negated expressions included.
-/

namespace Gatehouse.Rego

/-- The rule that says whether a policy passes. -/
def passRule : String := "pass"

/-- The rule that lists violations. -/
def violationsRule : String := "violations"

/-- The variable that a violation is bound to. -/
def resultVar : String := "result"

/-- What a violation has to say. -/
def requiredFields : List String := ["pass", "id", "name", "message"]

/-- How a module breaks the contract. -/
inductive ContractError where
  | missingPass
  | missingViolations
  | badShape
  deriving DecidableEq, Repr

/-- The message of an error. -/
def ContractError.message : ContractError → String
  | missingPass => "all policies must contain a \"pass\" rule"
  | missingViolations => "all policies must contain a \"violations\" rule"
  | badShape =>
    "all \"violations\" rules must return a \"result\" object containing \"pass\", \"id\", \"name\" and \"message\""

/-- The term is an object literal with every required key. -/
def Term.isViolation (t : Term) : Bool :=
  match t.stringKeys? with
  | some keys => requiredFields.all keys.contains
  | none => false

/-- The term is the variable of the results. -/
def Term.isResult (t : Term) : Bool := t.asVar? = some resultVar

/-- The term joins the result with a violation. -/
def Term.bindsResult : Term → Bool
  | .binary op lhs rhs =>
    (op = .assign || op = .unify) &&
      ((lhs.isResult && rhs.isViolation) || (rhs.isResult && lhs.isViolation))
  | _ => false

/-- Some term of a body joins the result with a violation. -/
def Body.bindsResult (b : Body) : Bool :=
  ((Body.nodes b).filterMap Node.asTerm?).any Term.bindsResult

/-- The rule has the shape of a violations rule. -/
def Rule.returnsResult (r : Rule) : Bool :=
  r.head.kind = .partialSet && r.head.key.any Term.isResult && !r.bodies.isEmpty &&
    r.bodies.all Body.bindsResult

/-- Every way in which a module breaks the contract. -/
def Module.contractErrors (m : Module) : List ContractError :=
  (if (m.rulesNamed passRule).isEmpty then [.missingPass] else []) ++
    (if (m.rulesNamed violationsRule).isEmpty then [.missingViolations] else []) ++
    (if (m.rulesNamed violationsRule).all Rule.returnsResult then [] else [.badShape])

end Gatehouse.Rego
