import Mathlib.Logic.Relation
import Gatehouse.Rego.Walk

/-!
# What stands where in a module

1. **Parts** (`Node.parts`).  For each form of a node, the nodes that stand directly in it.  This is the
   syntax itself, one line a form and without recursion.
2. **At any depth** (`Node.Within`).  A node stands in another if it is one of its parts, or a part of a
   part, and so on.
3. **The walk** (`Node.nodes_eq`).  The list of a node's nodes is the node and then the lists of its parts,
   one after the other.  So the walk comes everywhere (`Node.mem_nodes`), and forgets no form of a node.
-/

namespace Gatehouse.Rego

/-! ## Parts -/

/-- The terms of an optional place. -/
def optionParts (t : Option Term) : List Node := t.toList.map .term

/-- The terms of pairs. -/
def pairParts (pairs : List (Term × Term)) : List Node :=
  pairs.flatMap fun p => [.term p.1, .term p.2]

/-- What stands directly in a step of a path. -/
def Access.parts : Access → List Node
  | .dot _ => []
  | .index term => [.term term]

/-- What stands directly in a term. -/
def Term.parts : Term → List Node
  | .null | .bool _ | .number _ | .string _ | .var _ => []
  | .ref head path => .term head :: path.flatMap Access.parts
  | .call func args => .term func :: args.map .term
  | .array items => items.map .term
  | .set items => items.map .term
  | .object pairs => pairParts pairs
  | .arrayCompr item body => [.term item, .body body]
  | .setCompr item body => [.term item, .body body]
  | .objectCompr key value body => [.term key, .term value, .body body]
  | .binary _ lhs rhs => [.term lhs, .term rhs]
  | .neg term => [.term term]

/-- What stands directly in a goal. -/
def Goal.parts : Goal → List Node
  | .term t => [.term t]
  | .declare _ => []
  | .someIn key value collection => optionParts key ++ [.term value, .term collection]
  | .every key value domain body => optionParts key ++ [.term value, .term domain, .body body]

/-- What stands directly in an alternative. -/
def Otherwise.parts (o : Otherwise) : List Node := optionParts o.value ++ [.body o.body]

/-- What stands directly in a rule. -/
def Rule.parts (r : Rule) : List Node :=
  r.head.args.map .term ++ optionParts r.head.key ++ optionParts r.head.value ++ r.bodies.map .body ++
    r.otherwise.flatMap Otherwise.parts

namespace Node

/-- What stands directly in a node. -/
def parts : Node → List Node
  | rule r => r.parts
  | body b => b.map .expr
  | expr e => e.goal.parts ++ pairParts e.replacing
  | term t => t.parts

/-- A node stands in another, at any depth; a node stands in itself. -/
def Within (part whole : Node) : Prop := Relation.ReflTransGen (fun a b => b ∈ a.parts) whole part

/-- The list of a node and the nodes in it. -/
def nodes : Node → List Node
  | rule r => r.nodes
  | body b => Body.nodes b
  | expr e => e.nodes
  | term t => t.nodes

end Node

/-! ## The walk -/

theorem termNodes_eq (ts : List Term) : termNodes ts = (ts.map Node.term).flatMap Node.nodes := by
  induction ts with
  | nil => rfl
  | cons t ts ih => rw [termNodes, ih]; rfl

theorem accessNodes_eq (path : List Access) :
    accessNodes path = (path.flatMap Access.parts).flatMap Node.nodes := by
  induction path with
  | nil => rfl
  | cons a path ih =>
    rw [accessNodes, ih, List.flatMap_cons, List.flatMap_append]
    cases a with
    | dot field => rfl
    | index t => rw [Access.nodes, Access.parts, List.flatMap_singleton]; rfl

theorem exprNodes_eq (es : List Expr) : exprNodes es = (es.map Node.expr).flatMap Node.nodes := by
  induction es with
  | nil => rfl
  | cons e es ih => rw [exprNodes, ih]; rfl

theorem pairNodes_eq (ps : List (Term × Term)) : pairNodes ps = (pairParts ps).flatMap Node.nodes := by
  induction ps with
  | nil => rfl
  | cons p ps ih =>
    rw [pairNodes, ih, List.append_assoc]
    rfl

theorem optionNodes_eq (t : Option Term) : optionNodes t = (optionParts t).flatMap Node.nodes := by
  cases t with
  | none => rfl
  | some t => exact (List.append_nil _).symm

namespace Node

theorem nodes_term (t : Term) : nodes (.term t) = .term t :: t.parts.flatMap nodes := by
  show t.nodes = _
  cases t <;> simp [Term.nodes, Term.parts, termNodes_eq, accessNodes_eq, pairNodes_eq, exprNodes_eq,
    nodes, Body.nodes]

theorem nodes_goal (g : Goal) : g.nodes = g.parts.flatMap nodes := by
  cases g <;> simp [Goal.nodes, Goal.parts, optionNodes_eq, exprNodes_eq, nodes, Body.nodes]

theorem nodes_otherwise (o : Otherwise) : o.nodes = o.parts.flatMap nodes := by
  simp [Otherwise.nodes, Otherwise.parts, optionNodes_eq, nodes]

/-- **The walk of a node** is the node and then, in their order, the walks of its parts. -/
theorem nodes_eq (n : Node) : n.nodes = n :: n.parts.flatMap nodes := by
  cases n with
  | rule r =>
    have hbodies : r.bodies.flatMap Body.nodes = (r.bodies.map Node.body).flatMap nodes := by
      rw [List.flatMap_map]
      rfl
    have helse : r.otherwise.flatMap Otherwise.nodes = (r.otherwise.flatMap Otherwise.parts).flatMap nodes := by
      rw [List.flatMap_assoc]
      exact congrArg (r.otherwise.flatMap ·) (funext nodes_otherwise)
    show r.nodes = _
    rw [Rule.nodes, termNodes_eq, optionNodes_eq, optionNodes_eq, hbodies, helse, parts, Rule.parts]
    simp only [List.flatMap_append]
  | body b =>
    show Body.nodes b = _
    rw [Body.nodes, exprNodes_eq]
    rfl
  | expr e =>
    obtain ⟨goal, negated, replacing, location⟩ := e
    show Expr.nodes _ = _
    rw [Expr.nodes, nodes_goal, pairNodes_eq, parts, List.flatMap_append]
    rfl
  | term t => exact nodes_term t

theorem mem_nodes_self (n : Node) : n ∈ n.nodes := nodes_eq n ▸ List.mem_cons_self

/-- A part's walk is a piece of the whole's, and shorter by the whole itself. -/
theorem length_nodes_lt {part whole : Node} (h : part ∈ whole.parts) :
    part.nodes.length < whole.nodes.length := by
  have hle := (List.sublist_flatten_of_mem (List.mem_map_of_mem (f := nodes) h)).length_le
  rw [nodes_eq whole, List.length_cons, List.flatMap_def]
  omega

/-- **The walk of a node comes to the nodes that stand in it**, and to no others.  The induction is on the
length of the walk. -/
theorem mem_nodes {n whole : Node} : n ∈ whole.nodes ↔ n.Within whole := by
  constructor
  · intro h
    induction hlength : whole.nodes.length using Nat.strongRecOn generalizing whole with
    | ind length ih =>
      rw [nodes_eq] at h
      rcases List.mem_cons.1 h with rfl | h
      · exact .refl
      · obtain ⟨part, hpart, hn⟩ := List.mem_flatMap.1 h
        exact .head hpart (ih _ (hlength ▸ length_nodes_lt hpart) hn rfl)
  · intro h
    induction h using Relation.ReflTransGen.head_induction_on with
    | refl => exact mem_nodes_self n
    | head hpart _ ih =>
      rw [nodes_eq]
      exact List.mem_cons_of_mem _ (List.mem_flatMap.2 ⟨_, hpart, ih⟩)

theorem asBody?_eq_some {n : Node} {b : Body} : n.asBody? = some b ↔ n = .body b := by
  cases n <;> simp [asBody?]

end Node

/-- The bodies of a module are those that stand in one of its rules. -/
theorem Module.mem_allBodies {m : Module} {b : Body} :
    b ∈ m.allBodies ↔ ∃ r ∈ m.rules, (Node.body b).Within (.rule r) := by
  rw [allBodies, List.mem_filterMap]
  simp only [Node.asBody?_eq_some, exists_eq_right, nodes, List.mem_flatMap]
  exact exists_congr fun r => and_congr_right fun _ =>
    (Node.mem_nodes : Node.body b ∈ (Node.rule r).nodes ↔ _)

/-- The terms in a body are those that stand in it. -/
theorem Body.mem_terms {b : Body} {t : Term} :
    t ∈ (Body.nodes b).filterMap Node.asTerm? ↔ (Node.term t).Within (.body b) := by
  have hterm : ∀ n : Node, n.asTerm? = some t ↔ n = .term t := by
    intro n
    cases n <;> simp [Node.asTerm?]
  rw [List.mem_filterMap]
  simp only [hterm, exists_eq_right]
  exact (Node.mem_nodes : Node.term t ∈ (Node.body b).nodes ↔ _)

end Gatehouse.Rego
