import Gatehouse.Json.Record

/-!
# Callers

Who asks: a subject and the roles that it acts in.  A caller without credentials is the subject
`anonymous` in the role of that name.
-/

namespace Gatehouse.Access

open Json

/-- A role that permissions are granted to. -/
inductive Role where
  | anonymous
  | enforcer
  | applicationDeveloper
  | policyDeveloper
  | policyAdministrator
  | administrator
  deriving DecidableEq, Repr

namespace Role

/-- Every role. -/
def all : List Role :=
  [anonymous, enforcer, applicationDeveloper, policyDeveloper, policyAdministrator, administrator]

/-- No role is missing from `all`. -/
theorem mem_all (r : Role) : r ∈ all := by cases r <;> decide

/-- The name of a role. -/
def name : Role → String
  | anonymous => "Anonymous"
  | enforcer => "Enforcer"
  | applicationDeveloper => "ApplicationDeveloper"
  | policyDeveloper => "PolicyDeveloper"
  | policyAdministrator => "PolicyAdministrator"
  | administrator => "Administrator"

/-- The role of a name. -/
def ofName? (text : String) : Option Role := all.find? fun r => r.name = text

end Role

/-- Who asks. -/
structure Caller where
  subject : String
  roles : List Role
  deriving DecidableEq, Repr

namespace Caller

/-- A caller without credentials. -/
def anonymous : Caller := ⟨"anonymous", [.anonymous]⟩

/-- A caller as a value. -/
def toJson (c : Caller) : Json :=
  .object [("subject", .string c.subject), ("roles", .strings (c.roles.map Role.name))]

/-- The caller that a value is. -/
def ofJson? (value : Json) : Option Caller := do
  let r ← Record.ofJson? ["subject", "roles"] value
  return {
    subject := ← r.required "subject" string?
    roles := ← r.required "roles" (items? (choice? Role.ofName?)) }

end Caller
end Gatehouse.Access
