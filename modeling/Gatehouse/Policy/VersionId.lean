import Gatehouse.Text.Cut
import Gatehouse.Text.Digits

/-!
# Ids of versions

A version of a policy has the id of the policy, a point and its number.  Ids of policies may hold
points themselves, so the last point counts.
-/

namespace Gatehouse.Policy

open Gatehouse.Text

/-- One past the greatest number of a version. -/
def versionLimit : Nat := UInt32.size

/-- The id of a version. -/
def versionId (policyId : String) (version : UInt32) : String :=
  String.ofList (policyId.toList ++ '.' :: decimal version.toNat)

/-- The policy and the number of a version's id; `none` for any other id. -/
def ofVersionId? (id : String) : Option (String × UInt32) := do
  let (policyId, number) ← cutLast '.' id.toList
  if policyId.isEmpty then none
  else
    let version ← readCount? versionLimit number
    some (String.ofList policyId, UInt32.ofNat version)

/-! ## Ids -/

example : versionId "3f2c" 12 = "3f2c.12" := by decide +kernel
example : ofVersionId? "3f2c.12" = some ("3f2c", 12) := by decide +kernel
example : ofVersionId? "a.b.3" = some ("a.b", 3) := by decide +kernel
example : ofVersionId? "3f2c" = none ∧ ofVersionId? "3f2c.latest" = none ∧ ofVersionId? ".1" = none :=
  by decide +kernel

end Gatehouse.Policy
