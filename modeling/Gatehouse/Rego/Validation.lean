import Gatehouse.Rego.Grammar
import Gatehouse.Rego.Compile
import Gatehouse.Rego.Contract
import Gatehouse.Json.Record

/-!
# Validating policies

A source that is no module has one problem, its syntax error.  Of a module every problem is
reported, in this order: what the compiler refuses, then how the contract is broken.
-/

namespace Gatehouse.Rego

/-- A reason not to accept a policy. -/
inductive Problem where
  | unreadable (e : SyntaxError)
  | uncompilable (e : CompileError)
  | unfit (e : ContractError)
  deriving DecidableEq, Repr

/-- The message of a problem. -/
def Problem.message : Problem → String
  | unreadable e => e.message
  | uncompilable e => e.message
  | unfit e => e.message

/-- Every problem of a source. -/
def problems (refusal : Refusal) (source : String) : List Problem :=
  match Module.ofSource? source with
  | .error e => [.unreadable e]
  | .ok m =>
    (m.compileErrors refusal source).map .uncompilable ++ m.contractErrors.map .unfit

/-- What a caller is told about a policy. -/
structure Verdict where
  compile : Bool
  errors : List String
  deriving DecidableEq, Repr

namespace Verdict

/-- The policy is accepted. -/
def isValid (v : Verdict) : Bool := v.compile && v.errors.isEmpty

/-- The verdict on problems. -/
def ofProblems (ps : List Problem) : Verdict := ⟨ps.isEmpty, ps.map Problem.message⟩

/-- A verdict as JSON. -/
def toJson (v : Verdict) : Json :=
  .object [("compile", .bool v.compile), ("errors", .strings v.errors)]

/-- The verdict that JSON writes. -/
def ofJson? (j : Json) : Option Verdict := do
  let r ← Json.Record.ofJson? ["compile", "errors"] j
  return ⟨← r.required "compile" Json.bool?, ← r.required "errors" (Json.items? Json.string?)⟩

end Verdict

/-- The verdict on a source. -/
def validate (refusal : Refusal) (source : String) : Verdict :=
  .ofProblems (problems refusal source)

/-- Where the rules of a source are found. -/
def packagePath? (source : String) : Except SyntaxError String :=
  (Module.ofSource? source).map Module.dataPath

end Gatehouse.Rego
