import Gatehouse.Proofs.Occurrence.RoundTrip
import Gatehouse.Proofs.Service.Reading
import Gatehouse.Proofs.Time.Kept

/-!
# Writing and reading are matched

What is stored, sent to the engine or taken from an occurrence store goes through the codecs of its records.

1. **Records of the service** are read back from what is written of them (`ReadsBack`): all that it takes is
   that their times are, which is so for every time that a clock shows (`Instant.ofJson?_toJson_iff`).
2. **Records of others** are read leniently, so a value need not be the one that is written of it.  But what
   was read once stays as it is (`Settles`).
-/

namespace Gatehouse

open Json RuleEngine

/-! ## Times of records -/

/-- The times in a version. -/
def PolicyVersion.times (v : PolicyVersion) : List Instant := [v.created]

/-- The times in a policy and its version. -/
def Policy.times (p : Policy) : List Instant :=
  [p.created, p.updated] ++ p.version?.toList.flatMap PolicyVersion.times

/-- The times in a group. -/
def PolicyGroup.times (g : PolicyGroup) : List Instant := [g.created, g.updated]

/-- The times in an assignment. -/
def PolicyAssignment.times (a : PolicyAssignment) : List Instant := [a.created, a.updated]

/-- The times in an evaluation of a resource. -/
def ResourceEvaluation.times (e : ResourceEvaluation) : List Instant :=
  e.created :: e.resourceVersion.created?.toList

/-- The times in an evaluation of a policy. -/
def PolicyEvaluation.times (e : PolicyEvaluation) : List Instant := [e.created]

/-! ## Codecs -/

section

variable {α : Type}

/-- A record is read back if its times are. -/
def ReadsBack (write : α → Json) (read : Json → Option α) (times : α → List Instant) : Prop :=
  ∀ a, (∀ t ∈ times a, Instant.ofJson? t.toJson = some t) → read (write a) = some a

/-- What was read, of whatever value, is read again of what is written of it. -/
def Settles (write : α → Json) (read : Json → Option α) : Prop :=
  ∀ value a, read value = some a → read (write a) = some a

/-- It is enough that a record is read back if a clock may show its times. -/
theorem ReadsBack.of_isKept {write : α → Json} {read : Json → Option α} {times : α → List Instant}
    (h : ∀ a, (∀ t ∈ times a, t.IsKept) → read (write a) = some a) : ReadsBack write read times :=
  fun a htimes => h a fun t ht => Instant.ofJson?_toJson_iff.1 (htimes t ht)

end

theorem PolicyVersion.readsBack : ReadsBack toJson ofJson? times := .of_isKept fun v h =>
  ofJson?_toJson (h v.created (by simp [times]))

theorem Policy.readsBack : ReadsBack toJson ofJson? times := .of_isKept fun p h =>
  ofJson?_toJson {
    created := h p.created (by simp [times])
    updated := h p.updated (by simp [times])
    version := fun v hv => h v.created (by simp_all [times, PolicyVersion.times]) }

theorem PolicyGroup.readsBack : ReadsBack toJson ofJson? times := .of_isKept fun g h =>
  ofJson?_toJson ⟨h g.created (by simp [times]), h g.updated (by simp [times])⟩

theorem PolicyAssignment.readsBack : ReadsBack toJson ofJson? times := .of_isKept fun a h =>
  ofJson?_toJson ⟨h a.created (by simp [times]), h a.updated (by simp [times])⟩

theorem ResourceEvaluation.readsBack : ReadsBack toJson ofJson? times := .of_isKept fun e h =>
  ofJson?_toJson {
    resource := fun t ht => h t (List.mem_cons_of_mem _ (Option.mem_toList.2 ht))
    created := h e.created List.mem_cons_self }

theorem PolicyEvaluation.readsBack : ReadsBack toJson ofJson? times := .of_isKept fun e h =>
  ofJson?_toJson (h e.created (by simp [times]))

theorem RuleEngine.Outcome.ofJson?_toJson (o : Outcome) : Outcome.ofJson? o.toJson = some o :=
  have hviolations : items? Violation.ofJson? (.array (o.violations.map Violation.toJson)) =
      some o.violations := items?_map fun v _ => Violation.ofJson?_toJson v
  Record.step (Record.ofJson?_object _ (by simp)) <|
    Record.step rfl <| Record.step (Record.defaulted_of rfl hviolations) rfl

theorem Json.items?_some (values : List Json) : items? some (.array values) = some values := by
  have hread : items? some (.array (values.map id)) = some values := items?_map fun _ _ => rfl
  rwa [List.map_id] at hread

theorem RuleEngine.Evaluation.ofJson?_toJson (e : Evaluation) : Evaluation.ofJson? e.toJson = some e := by
  obtain ⟨result, explanation?⟩ := e
  have hsub : (("result", result.toJson) :: memberOfSome "explanation" .array explanation?).map Prod.fst
      |>.Sublist ["result", "explanation"] :=
    (map_fst_memberOfSome_sublist "explanation" _ _).cons_cons "result"
  exact Record.step (Record.ofJson?_object _ (hsub.nodup (by simp))) <|
    Record.step (Record.defaulted_of rfl result.ofJson?_toJson) <|
    Record.step (Record.optional_of_map (member?_memberOfSome _ _) nofun
      fun steps _ => items?_some steps) rfl

/-- **Every record is read back from what is written of it, and what was read of an occurrence stays as it
is.** -/
theorem records_read_back :
    ReadsBack Policy.toJson Policy.ofJson? Policy.times ∧
      ReadsBack PolicyVersion.toJson PolicyVersion.ofJson? PolicyVersion.times ∧
      ReadsBack PolicyGroup.toJson PolicyGroup.ofJson? PolicyGroup.times ∧
      ReadsBack PolicyAssignment.toJson PolicyAssignment.ofJson? PolicyAssignment.times ∧
      ReadsBack ResourceEvaluation.toJson ResourceEvaluation.ofJson? ResourceEvaluation.times ∧
      ReadsBack PolicyEvaluation.toJson PolicyEvaluation.ofJson? PolicyEvaluation.times ∧
      ReadsBack Violation.toJson Violation.ofJson? (fun _ => []) ∧
      ReadsBack Evaluation.toJson Evaluation.ofJson? (fun _ => []) ∧
      Settles Occurrence.toJson Occurrence.ofJson? ∧
      Settles Occurrence.ListResponse.toJson Occurrence.ListResponse.ofJson? :=
  ⟨Policy.readsBack, PolicyVersion.readsBack, PolicyGroup.readsBack, PolicyAssignment.readsBack,
    ResourceEvaluation.readsBack, PolicyEvaluation.readsBack, fun v _ => v.ofJson?_toJson,
    fun e _ => e.ofJson?_toJson,
    fun _ _ h => Occurrence.ofJson?_toJson (Occurrence.isSettled_of_ofJson? h),
    fun _ _ h => Occurrence.ListResponse.ofJson?_toJson (Occurrence.ListResponse.isSettled_of_ofJson? h)⟩

/-- A policy with its first version, and a leap second. -/
def harborGate : Policy :=
  ⟨"p", "harbor-gate", "", 1, false, ⟨1483228799, 1500000000⟩, ⟨1483228800, 0⟩,
    some ⟨"p.1", "p", 1, "package harbor", "", "first", ⟨1483228799, 1500000000⟩⟩⟩

/-- An occurrence with members that are missing, empty, `null` and unknown. -/
def sparse : Json :=
  .object [("createTime", .null), ("build", .object [("provenanceBytes", .string "e30="),
    ("provenance", .object [("id", .string ""), ("sourceProvenance", .null),
      ("builtArtifacts", .array [.object [("names", .array []), ("size", .ofNat 3)]])])])]

theorem records_read_back_harborGate : Policy.ofJson? harborGate.toJson = some harborGate ∧
    ∃ o, Occurrence.ofJson? sparse = some o ∧ Occurrence.ofJson? o.toJson = some o := by
  obtain ⟨hpolicy, -, -, -, -, -, -, -, hoccurrence, -⟩ := records_read_back
  have htimes : ∀ t ∈ harborGate.times, Instant.ofJson? t.toJson = some t := by decide +kernel
  have hsparse : ∃ o, Occurrence.ofJson? sparse = some o := ⟨_, rfl⟩
  obtain ⟨o, ho⟩ := hsparse
  exact ⟨hpolicy harborGate htimes, o, ho, hoccurrence sparse o ho⟩

end Gatehouse
