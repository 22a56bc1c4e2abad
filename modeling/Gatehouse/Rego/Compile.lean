import Gatehouse.Rego.Walk

/-!
# What a compiler refuses

Checks of a module that need no knowledge of what its rules mean.

1. **Kinds.**  The rules of one name define one kind of thing (`conflictingNames`).
2. **Defaults.**  A name has at most one default (`multiplyDefaulted`).  Both lists are in the order
   of the names and name each once.
3. **Declarations.**  Within one body, and not counting the bodies nested in it, `:=` declares a
   variable at most once (`redeclarations`); the variable `_` is never declared.
4. **The engine.**  Whether the rule engine itself accepts the source is not for us to decide.  What
   it says is given (`Refusal`): its complaint about a source, if it has one.
-/

namespace Gatehouse.Rego

/-- What a rule engine has to say against a source. -/
abbrev Refusal := String → Option String

/-- Why a module does not compile. -/
inductive CompileError where
  /-- The rules of this path are of several kinds. -/
  | conflictingRules (path : String)
  /-- The rule of this path has several defaults. -/
  | multipleDefaults (path : String)
  /-- The variable is declared again here. -/
  | redeclared (name : String) (location : Location)
  /-- The rule engine does not accept the source. -/
  | refused (complaint : String)
  deriving DecidableEq, Repr

/-- The message of an error. -/
def CompileError.message : CompileError → String
  | conflictingRules path => "rego_type_error: conflicting rules " ++ path ++ " found"
  | multipleDefaults path => "rego_type_error: multiple default rules " ++ path ++ " found"
  | redeclared name location =>
    location.toText ++ ": rego_compile_error: var " ++ name ++ " assigned above"
  | refused complaint => "rego_compile_error: " ++ complaint

/-! ## Rules of one name -/

/-- The values of a list without repetition, each at its first place. -/
def distinct {α : Type} [DecidableEq α] : List α → List α
  | [] => []
  | a :: as => a :: (distinct as).filter (· ≠ a)

/-- The names of a module's rules, in their order and once each. -/
def Module.ruleNames (m : Module) : List String :=
  (distinct (m.rules.map fun r => r.head.name)).mergeSort fun a b => decide (a ≤ b)

/-- The rules of a name are of several kinds. -/
def Module.hasConflict (m : Module) (name : String) : Bool :=
  1 < (distinct ((m.rulesNamed name).map fun r => r.head.kind)).length

/-- A name has several defaults. -/
def Module.hasDefaults (m : Module) (name : String) : Bool :=
  1 < ((m.rulesNamed name).filter Rule.isDefault).length

/-- The path of a rule in messages. -/
def Module.rulePath (m : Module) (name : String) : String :=
  "data." ++ m.package.dotted ++ "." ++ name

/-- The names whose rules are of several kinds. -/
def Module.conflictingNames (m : Module) : List String := m.ruleNames.filter m.hasConflict

/-- The names that have several defaults. -/
def Module.multiplyDefaulted (m : Module) : List String := m.ruleNames.filter m.hasDefaults

/-! ## Declarations -/

/-- The variable that an expression declares with `:=`. -/
def Expr.declares? (e : Expr) : Option String :=
  match e.goal with
  | .term (.binary .assign (.var name) _) => if name = "_" then none else some name
  | _ => none

/-- The declarations of a body whose variable is declared already, given those declared before. -/
def redeclaredAfter : List String → Body → List CompileError
  | _, [] => []
  | declared, e :: es =>
    match e.declares? with
    | some name =>
      if declared.contains name then .redeclared name e.location :: redeclaredAfter declared es
      else redeclaredAfter (name :: declared) es
    | none => redeclaredAfter declared es

/-- The repeated declarations of all bodies. -/
def Module.redeclarations (m : Module) : List CompileError := m.allBodies.flatMap (redeclaredAfter [])

/-! ## All of it -/

/-- The errors that can be seen without the rule engine. -/
def Module.localErrors (m : Module) : List CompileError :=
  m.conflictingNames.map (fun name => .conflictingRules (m.rulePath name)) ++
    m.multiplyDefaulted.map (fun name => .multipleDefaults (m.rulePath name)) ++ m.redeclarations

/-- Every error of a module with the given source. -/
def Module.compileErrors (refusal : Refusal) (source : String) (m : Module) : List CompileError :=
  m.localErrors ++ ((refusal source).map CompileError.refused).toList

end Gatehouse.Rego
