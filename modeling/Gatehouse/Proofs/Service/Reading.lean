import Gatehouse.Evaluation.Basic
import Gatehouse.Group.Basic
import Gatehouse.Assignment.Basic
import Gatehouse.Policy.Basic
import Gatehouse.Proofs.Json.Record
import Gatehouse.Proofs.Time.Reading

/-!
# Stored records read back

The store keeps JSON, the service works with records.  What makes it a store of records is that each
kind of record is read back from its value unchanged, whatever texts it holds.  The one thing that
could be lost is a time that has no written form; `IsKept` of a record says that its times have one.

Each proof follows the decoder: the record is that of the members, and one reading after the other
gives back the member that was written.
-/

namespace Gatehouse

open Json

/-! ## Policies -/

theorem versionNumber?_ofNat (n : UInt32) : versionNumber? (.ofNat n.toNat) = some n := by
  simp [versionNumber?, count?_ofNat (show n.toNat < Policy.versionLimit from n.toNat_lt)]

namespace PolicyVersion

/-- The times of a version have a written form. -/
def IsKept (v : PolicyVersion) : Prop := v.created.IsKept

theorem ofJson?_toJson {v : PolicyVersion} (h : v.IsKept) : ofJson? v.toJson = some v :=
  Record.step (Record.ofJson?_object _ (by simp)) <|
  Record.step rfl <| Record.step rfl <|
  Record.step (Record.required_of rfl (versionNumber?_ofNat v.version)) <|
  Record.step rfl <| Record.step rfl <| Record.step rfl <|
  Record.step (Record.required_of rfl (Instant.ofJson?_toJson h)) rfl

end PolicyVersion

namespace Policy

/-- The times of a policy have a written form. -/
structure IsKept (p : Policy) : Prop where
  created : p.created.IsKept
  updated : p.updated.IsKept
  version : ∀ v ∈ p.version?, v.IsKept

theorem ofJson?_toJson {p : Policy} (h : p.IsKept) : ofJson? p.toJson = some p := by
  obtain ⟨id, name, description, currentVersion, deleted, created, updated, version?⟩ := p
  have hnumber := versionNumber?_ofNat currentVersion
  have hcreated := Instant.ofJson?_toJson h.created
  have hupdated := Instant.ofJson?_toJson h.updated
  -- a policy is written without its version if it is given without
  cases version? with
  | none =>
    exact Record.step (Record.ofJson?_object _ (by simp [memberOfSome])) <|
      Record.step rfl <| Record.step rfl <| Record.step rfl <|
      Record.step (Record.required_of rfl hnumber) <| Record.step rfl <|
      Record.step (Record.required_of rfl hcreated) <|
      Record.step (Record.required_of rfl hupdated) <| Record.step rfl rfl
  | some v =>
    have hversion := PolicyVersion.ofJson?_toJson (h.version v rfl)
    exact Record.step (Record.ofJson?_object _ (by simp [memberOfSome])) <|
      Record.step rfl <| Record.step rfl <| Record.step rfl <|
      Record.step (Record.required_of rfl hnumber) <| Record.step rfl <|
      Record.step (Record.required_of rfl hcreated) <|
      Record.step (Record.required_of rfl hupdated) <|
      Record.step (Record.optional_of rfl (fun h => nomatch h) hversion) rfl

end Policy

/-! ## Groups and assignments -/

namespace PolicyGroup

/-- The times of a group have a written form. -/
structure IsKept (g : PolicyGroup) : Prop where
  created : g.created.IsKept
  updated : g.updated.IsKept

theorem ofJson?_toJson {g : PolicyGroup} (h : g.IsKept) : ofJson? g.toJson = some g :=
  Record.step (Record.ofJson?_object _ (by simp)) <|
  Record.step rfl <| Record.step rfl <| Record.step rfl <|
  Record.step (Record.required_of rfl (Instant.ofJson?_toJson h.created)) <|
  Record.step (Record.required_of rfl (Instant.ofJson?_toJson h.updated)) rfl

end PolicyGroup

namespace PolicyAssignment

/-- The times of an assignment have a written form. -/
structure IsKept (a : PolicyAssignment) : Prop where
  created : a.created.IsKept
  updated : a.updated.IsKept

theorem ofJson?_toJson {a : PolicyAssignment} (h : a.IsKept) : ofJson? a.toJson = some a :=
  Record.step (Record.ofJson?_object _ (by simp)) <|
  Record.step rfl <| Record.step rfl <| Record.step rfl <|
  Record.step (Record.required_of rfl (Instant.ofJson?_toJson h.created)) <|
  Record.step (Record.required_of rfl (Instant.ofJson?_toJson h.updated)) rfl

end PolicyAssignment

/-! ## Evaluations -/

theorem EvaluationSource.ofJson?_toJson (s : EvaluationSource) : ofJson? s.toJson = some s :=
  Record.step (Record.ofJson?_object _ (by simp)) <| Record.step rfl <| Record.step rfl rfl

namespace ResourceVersion

/-- The time of a resource has a written form. -/
def IsKept (v : ResourceVersion) : Prop := ∀ t ∈ v.created?, t.IsKept

theorem ofJson?_toJson {v : ResourceVersion} (h : v.IsKept) : ofJson? v.toJson = some v := by
  obtain ⟨version, names, created?⟩ := v
  have hnames : items? string? (.strings names) = some names := items?_map fun _ _ => rfl
  cases created? with
  | none =>
    exact Record.step (Record.ofJson?_object _ (by simp [memberOfSome])) <|
      Record.step rfl <| Record.step (Record.defaulted_of rfl hnames) <| Record.step rfl rfl
  | some t =>
    have ht := Instant.ofJson?_toJson (h t rfl)
    exact Record.step (Record.ofJson?_object _ (by simp [memberOfSome])) <|
      Record.step rfl <| Record.step (Record.defaulted_of rfl hnames) <|
      Record.step (Record.optional_of rfl (fun h => nomatch h) ht) rfl

end ResourceVersion

namespace ResourceEvaluation

/-- The times of an evaluation have a written form. -/
structure IsKept (e : ResourceEvaluation) : Prop where
  resource : e.resourceVersion.IsKept
  created : e.created.IsKept

theorem ofJson?_toJson {e : ResourceEvaluation} (h : e.IsKept) : ofJson? e.toJson = some e :=
  Record.step (Record.ofJson?_object _ (by simp)) <|
  Record.step rfl <|
  Record.step (Record.required_of rfl (ResourceVersion.ofJson?_toJson h.resource)) <|
  Record.step rfl <| Record.step rfl <|
  Record.step (Record.defaulted_of rfl (EvaluationSource.ofJson?_toJson e.source)) <|
  Record.step (Record.required_of rfl (Instant.ofJson?_toJson h.created)) rfl

end ResourceEvaluation

theorem RuleEngine.Violation.ofJson?_toJson (v : Violation) : ofJson? v.toJson = some v :=
  Record.step (Record.ofJson?_object _ (by simp)) <|
  Record.step rfl <| Record.step rfl <| Record.step rfl <| Record.step rfl <| Record.step rfl <|
  Record.step rfl rfl

namespace PolicyEvaluation

/-- The times of an evaluation have a written form. -/
def IsKept (e : PolicyEvaluation) : Prop := e.created.IsKept

theorem ofJson?_toJson {e : PolicyEvaluation} (h : e.IsKept) : ofJson? e.toJson = some e := by
  have hviolations : items? RuleEngine.Violation.ofJson?
      (.array (e.violations.map RuleEngine.Violation.toJson)) = some e.violations :=
    items?_map fun v _ => RuleEngine.Violation.ofJson?_toJson v
  exact Record.step (Record.ofJson?_object _ (by simp)) <|
    Record.step rfl <| Record.step rfl <| Record.step rfl <| Record.step rfl <|
    Record.step (Record.defaulted_of rfl hviolations) <|
    Record.step (Record.required_of rfl (Instant.ofJson?_toJson h)) rfl

end PolicyEvaluation
end Gatehouse
