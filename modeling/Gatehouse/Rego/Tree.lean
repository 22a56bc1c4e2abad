import Gatehouse.Rego.Token

/-!
# Syntax trees of Rego

A module is a package, its imports and its rules.  The five kinds of tree below a rule refer to each
other: a term may hold a body (a comprehension does), a body is a list of expressions, an expression
holds terms.  They are one mutual family; everything that walks a tree follows it.
-/

namespace Gatehouse.Rego

/-- Operators between two terms. -/
inductive BinOp where
  | assign | unify
  | member
  | eq | neq | lt | lte | gt | gte
  | union
  | intersect
  | add | sub
  | mul | div | rem
  deriving DecidableEq, Repr

namespace BinOp

/-- How tightly an operator binds; seven tiers, 6 the tightest. -/
def precedence : BinOp → Nat
  | assign | unify => 0
  | member => 1
  | eq | neq | lt | lte | gt | gte => 2
  | union => 3
  | intersect => 4
  | add | sub => 5
  | mul | div | rem => 6

end BinOp

mutual

/-- A term. -/
inductive Term where
  | null
  | bool (b : Bool)
  /-- A number as it is written. -/
  | number (text : String)
  | string (value : String)
  | var (name : String)
  /-- A path into the value of a term. -/
  | ref (head : Term) (path : List Access)
  | call (func : Term) (args : List Term)
  | array (items : List Term)
  | set (items : List Term)
  | object (pairs : List (Term × Term))
  | arrayCompr (item : Term) (body : List Expr)
  | setCompr (item : Term) (body : List Expr)
  | objectCompr (key value : Term) (body : List Expr)
  | binary (op : BinOp) (lhs rhs : Term)
  | neg (term : Term)
  deriving Repr

/-- One step of a path. -/
inductive Access where
  | dot (field : String)
  | index (term : Term)
  deriving Repr

/-- What an expression says. -/
inductive Goal where
  | term (t : Term)
  /-- `some x, y` -/
  | declare (names : List String)
  /-- `some k, v in collection` -/
  | someIn (key : Option Term) (value collection : Term)
  /-- `every k, v in domain`, and a body in braces -/
  | every (key : Option Term) (value domain : Term) (body : List Expr)
  deriving Repr

/-- One expression of a body: a goal, whether it is negated, and the pairs of target and value that
replace parts of the input while it is evaluated. -/
inductive Expr where
  | mk (goal : Goal) (negated : Bool) (replacing : List (Term × Term)) (location : Location)
  deriving Repr

end

/-- Expressions that have to hold together. -/
abbrev Body := List Expr

namespace Expr

/-- What the expression says. -/
def goal : Expr → Goal
  | mk g _ _ _ => g

/-- The expression stands under `not`. -/
def negated : Expr → Bool
  | mk _ n _ _ => n

/-- The `with` clauses of the expression. -/
def replacing : Expr → List (Term × Term)
  | mk _ _ ps _ => ps

/-- Where the expression starts. -/
def location : Expr → Location
  | mk _ _ _ l => l

end Expr

namespace Term

/-- The name of a term that is a variable. -/
def asVar? : Term → Option String
  | var name => some name
  | _ => none

/-- The text of a term that is a string. -/
def asString? : Term → Option String
  | string value => some value
  | _ => none

/-- The keys of an object literal that are strings; other keys are passed over. -/
def stringKeys? : Term → Option (List String)
  | object pairs => some (pairs.filterMap fun p => p.1.asString?)
  | _ => none

/-- Extend the path of a reference, or start one. -/
def access (t : Term) (a : Access) : Term :=
  match t with
  | ref head path => ref head (path ++ [a])
  | other => ref other [a]

end Term

/-- What a rule defines. -/
inductive RuleKind where
  /-- `p = v { .. }`, `p { .. }`, `p := v` -/
  | complete
  /-- `p[x] { .. }`, `p contains x if { .. }` -/
  | partialSet
  /-- `p[k] = v { .. }` -/
  | partialObject
  /-- `f(x) = y { .. }` -/
  | function
  deriving DecidableEq, Repr

/-- What a rule defines, before its bodies. -/
structure Head where
  name : String
  kind : RuleKind
  args : List Term
  key : Option Term
  value : Option Term
  /-- The value follows `:=`, not `=`. -/
  assigned : Bool
  deriving Repr

/-- What holds when the bodies before it do not. -/
structure Otherwise where
  value : Option Term
  body : Body
  location : Location
  deriving Repr

/-- A rule: alternative bodies for one head.  Without a body it holds always. -/
structure Rule where
  isDefault : Bool
  head : Head
  bodies : List Body
  otherwise : List Otherwise
  location : Location
  deriving Repr

/-- What a module brings in from elsewhere. -/
structure Import where
  path : Term
  alias? : Option String
  location : Location
  deriving Repr

/-- The name space of a module. -/
structure Package where
  path : List String
  location : Location
  deriving DecidableEq, Repr

/-- A policy's source, read. -/
structure Module where
  package : Package
  imports : List Import
  rules : List Rule
  deriving Repr

namespace Package

/-- The package as it is declared, were all its segments names. -/
def dotted (p : Package) : String := ".".intercalate p.path

end Package

namespace Module

/-- The rules of a name, in source order. -/
def rulesNamed (m : Module) (name : String) : List Rule :=
  m.rules.filter fun r => r.head.name = name

/-- Where the package's rules are found: its segments parted by slashes. -/
def dataPath (m : Module) : String := "/".intercalate m.package.path

end Module
end Gatehouse.Rego
