import Gatehouse.Rego.Validation

/-!
# Which sources are accepted

A source is accepted if there is nothing to report.  What is reported of rules that are at odds goes by
the names of the rules, sorted and once each.  Whether anything is reported can be told from the rules as
they stand, without sorting.
-/

namespace Gatehouse.Rego

theorem mem_distinct {α : Type} [DecidableEq α] {a : α} {as : List α} : a ∈ distinct as ↔ a ∈ as := by
  induction as with
  | nil => rfl
  | cons b bs ih =>
    rw [distinct, List.mem_cons, List.mem_cons, List.mem_filter, ih, decide_eq_true_iff]
    by_cases hab : a = b <;> simp [hab]

namespace Module

variable {m : Module}

theorem mem_ruleNames {name : String} : name ∈ m.ruleNames ↔ ∃ r ∈ m.rules, r.head.name = name := by
  rw [ruleNames, List.mem_mergeSort, mem_distinct, List.mem_map]

/-- Nothing is wrong with a module that can be seen without the rule engine. -/
def isFlawless (m : Module) : Bool :=
  (m.rules.all fun r => !m.hasConflict r.head.name && !m.hasDefaults r.head.name) &&
    m.redeclarations.isEmpty && m.contractErrors.isEmpty

/-- **A module is flawless if no error is found in it.** -/
theorem isFlawless_iff : m.isFlawless = true ↔ m.localErrors = [] ∧ m.contractErrors = [] := by
  have hnames : ∀ p : String → Bool,
      m.ruleNames.filter p = [] ↔ ∀ r ∈ m.rules, p r.head.name = false := by
    intro p
    simp only [List.filter_eq_nil_iff, mem_ruleNames, Bool.not_eq_true]
    exact ⟨fun h r hr => h _ ⟨r, hr, rfl⟩, fun h name ⟨r, hr, hname⟩ => hname ▸ h r hr⟩
  simp only [isFlawless, localErrors, conflictingNames, multiplyDefaulted, List.append_eq_nil_iff,
    List.map_eq_nil_iff, hnames, Bool.and_eq_true, List.all_eq_true, Bool.not_eq_true',
    List.isEmpty_iff, forall_and]

end Module

/-- The source is that of a flawless module. -/
def isFlawless (source : String) : Bool :=
  match Module.ofSource? source with
  | .ok m => m.isFlawless
  | .error _ => false

theorem Verdict.isValid_ofProblems (ps : List Problem) : (ofProblems ps).isValid = true ↔ ps = [] := by
  simp [ofProblems, isValid]

/-- **A source is accepted if it is flawless and the rule engine has nothing to say against it.** -/
theorem isValid_validate (refusal : Refusal) (source : String) :
    (validate refusal source).isValid = true ↔ isFlawless source = true ∧ refusal source = none := by
  rw [validate, Verdict.isValid_ofProblems, problems, isFlawless]
  cases Module.ofSource? source with
  | error e => simp
  | ok m =>
    simp only [Module.compileErrors, Module.isFlawless_iff, List.append_eq_nil_iff, List.map_eq_nil_iff,
      Option.toList_eq_nil_iff, Option.map_eq_none_iff]
    exact and_right_comm

end Gatehouse.Rego
