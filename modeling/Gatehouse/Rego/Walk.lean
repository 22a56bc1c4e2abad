import Gatehouse.Rego.Tree

/-!
# Walking trees

`Module.nodes` lists every rule, body, expression and term of a module, each once, a node before
what it holds and in source order.  Checks that look for something anywhere in a module filter this
list, so that none of them has its own idea of where things may stand.

A body stands in a rule, in an alternative after `else`, in a comprehension, or under `every`;
`with` clauses, head arguments, keys and values hold terms like any other place.
-/

namespace Gatehouse.Rego

/-- A node of a module. -/
inductive Node where
  | rule (r : Rule)
  | body (b : Body)
  | expr (e : Expr)
  | term (t : Term)

mutual

/-- A term and the nodes it holds. -/
def Term.nodes : Term → List Node
  | .null => [.term .null]
  | .bool b => [.term (.bool b)]
  | .number text => [.term (.number text)]
  | .string value => [.term (.string value)]
  | .var name => [.term (.var name)]
  | .ref head path => .term (.ref head path) :: (head.nodes ++ accessNodes path)
  | .call func args => .term (.call func args) :: (func.nodes ++ termNodes args)
  | .array items => .term (.array items) :: termNodes items
  | .set items => .term (.set items) :: termNodes items
  | .object pairs => .term (.object pairs) :: pairNodes pairs
  | .arrayCompr item body =>
    .term (.arrayCompr item body) :: (item.nodes ++ .body body :: exprNodes body)
  | .setCompr item body =>
    .term (.setCompr item body) :: (item.nodes ++ .body body :: exprNodes body)
  | .objectCompr key value body =>
    .term (.objectCompr key value body) ::
      (key.nodes ++ value.nodes ++ .body body :: exprNodes body)
  | .binary op lhs rhs => .term (.binary op lhs rhs) :: (lhs.nodes ++ rhs.nodes)
  | .neg term => .term (.neg term) :: term.nodes

/-- The nodes of a step of a path. -/
def Access.nodes : Access → List Node
  | .dot _ => []
  | .index term => term.nodes

/-- The nodes of a goal. -/
def Goal.nodes : Goal → List Node
  | .term t => t.nodes
  | .declare _ => []
  | .someIn key value collection => optionNodes key ++ value.nodes ++ collection.nodes
  | .every key value domain body =>
    optionNodes key ++ value.nodes ++ domain.nodes ++ .body body :: exprNodes body

/-- An expression and the nodes it holds. -/
def Expr.nodes : Expr → List Node
  | .mk goal negated replacing location =>
    .expr (.mk goal negated replacing location) :: (goal.nodes ++ pairNodes replacing)

/-- The nodes of some terms. -/
def termNodes : List Term → List Node
  | [] => []
  | t :: ts => t.nodes ++ termNodes ts

/-- The nodes of a path. -/
def accessNodes : List Access → List Node
  | [] => []
  | a :: as => a.nodes ++ accessNodes as

/-- The nodes of some expressions. -/
def exprNodes : List Expr → List Node
  | [] => []
  | e :: es => e.nodes ++ exprNodes es

/-- The nodes of pairs of terms. -/
def pairNodes : List (Term × Term) → List Node
  | [] => []
  | (a, b) :: ps => a.nodes ++ b.nodes ++ pairNodes ps

/-- The nodes of a term that may be absent. -/
def optionNodes : Option Term → List Node
  | none => []
  | some t => t.nodes

end

/-- A body and the nodes it holds. -/
def Body.nodes (b : Body) : List Node := .body b :: exprNodes b

/-- The nodes of an alternative. -/
def Otherwise.nodes (o : Otherwise) : List Node := optionNodes o.value ++ Body.nodes o.body

/-- A rule and the nodes it holds. -/
def Rule.nodes (r : Rule) : List Node :=
  .rule r :: (termNodes r.head.args ++ optionNodes r.head.key ++ optionNodes r.head.value ++
    r.bodies.flatMap Body.nodes ++ r.otherwise.flatMap Otherwise.nodes)

/-- The nodes of a module. -/
def Module.nodes (m : Module) : List Node := m.rules.flatMap Rule.nodes

namespace Node

/-- The body that a node is. -/
def asBody? : Node → Option Body
  | body b => some b
  | _ => none

/-- The term that a node is. -/
def asTerm? : Node → Option Term
  | term t => some t
  | _ => none

/-- The entry of a node in the record of a walk, if it leaves one. -/
def trace? : Node → Option String
  | rule r => some ("rule " ++ r.head.name)
  | body _ => some "body"
  | term (.var name) => some ("var " ++ name)
  | term (.string value) => some ("string " ++ value)
  | term (.number text) => some ("number " ++ text)
  | _ => none

end Node

/-- How many nodes of each kind a module has. -/
structure NodeCount where
  rules : Nat
  bodies : Nat
  exprs : Nat
  terms : Nat
  deriving DecidableEq, Repr

/-- Count a node. -/
def NodeCount.add (n : NodeCount) : Node → NodeCount
  | .rule _ => { n with rules := n.rules + 1 }
  | .body _ => { n with bodies := n.bodies + 1 }
  | .expr _ => { n with exprs := n.exprs + 1 }
  | .term _ => { n with terms := n.terms + 1 }

/-- The nodes of a module, counted. -/
def Module.count (m : Module) : NodeCount := m.nodes.foldl NodeCount.add ⟨0, 0, 0, 0⟩

/-- Every body of a module, at any depth. -/
def Module.allBodies (m : Module) : List Body := m.nodes.filterMap Node.asBody?

end Gatehouse.Rego
