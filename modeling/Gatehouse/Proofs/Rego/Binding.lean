import Gatehouse.Proofs.Rego.Report

/-!
# Where a violation is bound

A rule that lists violations has to bind its key in each of its bodies.  The check of the contract looks
for a term that does so at any depth, but only a term that is an expression of the body itself, and not
under `not`, binds the key of the rule.

1. **A body binds its result** (`Body.BindsItself`) by one of its own expressions.
2. **A body mentions a binding** (`Body.Mentions`) if there is one further in: in a part of an
   expression, behind `with`, or under `not`.
3. **The contract** is met if and only if each body does one of the two.  So it says that the key is
   bound in all bodies that mention no binding, and it says no more (`not_forall_bindsItself`).
-/

namespace Gatehouse.Rego

/-! ## Terms in bodies -/

theorem Node.within_iff {n whole : Node} : n.Within whole ↔ n = whole ∨ ∃ part ∈ whole.parts, n.Within part := by
  unfold Within
  rw [Relation.ReflTransGen.cases_head_iff]
  exact or_congr_left eq_comm

/-- What stands in an expression besides a goal that is a term and is to hold. -/
def Expr.innards (e : Expr) : List Node :=
  match e.negated, e.goal with
  | false, .term t => t.parts ++ pairParts e.replacing
  | _, g => g.parts ++ pairParts e.replacing

/-- The term that a goal is. -/
def Goal.asTerm? : Goal → Option Term
  | .term t => some t
  | _ => none

/-- The expression is the term, and not its negation. -/
def Expr.States (e : Expr) (t : Term) : Prop := e.negated = false ∧ e.goal = .term t

/-- A term in an expression is the one that it states, or stands in what else there is. -/
theorem Expr.within_iff {e : Expr} {t : Term} :
    (Node.term t).Within (.expr e) ↔ e.States t ∨ ∃ n ∈ e.innards, (Node.term t).Within n := by
  have hexpr : (Node.term t).Within (.expr e) ↔
      ∃ n ∈ e.goal.parts ++ pairParts e.replacing, (Node.term t).Within n := by
    rw [Node.within_iff, or_iff_right Node.noConfusion]
    rfl
  rw [hexpr]
  obtain ⟨goal, negated, replacing, location⟩ := e
  cases negated with
  | true => simp [States, innards, Expr.negated, Expr.goal, Expr.replacing]
  | false =>
    cases goal with
    | term u =>
      have hu : (Node.term t).Within (.term u) ↔ u = t ∨ ∃ n ∈ u.parts, (Node.term t).Within n := by
        rw [Node.within_iff, Node.term.injEq, eq_comm]
        rfl
      simp only [States, innards, Expr.negated, Expr.goal, Expr.replacing, Goal.parts, Goal.term.injEq,
        true_and, List.mem_append, List.mem_singleton, or_and_right, exists_or, exists_eq_left, hu, or_assoc]
    | _ => simp [States, innards, Expr.negated, Expr.goal, Expr.replacing]

/-! ## Bindings -/

/-- One of the body's own expressions states that the result is a violation. -/
def Body.BindsItself (b : Body) : Prop := ∃ e ∈ b, ∃ t, e.States t ∧ t.Joins

/-- Some term further in would bind the result, were it an expression of the body. -/
def Body.Mentions (b : Body) : Prop := ∃ e ∈ b, ∃ n ∈ e.innards, ∃ t, (Node.term t).Within n ∧ t.Joins

theorem Body.any_states_iff {b : Body} :
    (b.any fun e => !e.negated && e.goal.asTerm?.any Term.bindsResult) = true ↔ b.BindsItself := by
  have hgoal : ∀ g : Goal, g.asTerm?.any Term.bindsResult = true ↔ ∃ t, g = .term t ∧ t.Joins := by
    intro g
    cases g <;> simp [Goal.asTerm?, Term.bindsResult_iff]
  simp only [List.any_eq_true, Bool.and_eq_true, Bool.not_eq_true', hgoal, BindsItself, Expr.States,
    and_assoc, exists_and_left]

instance (b : Body) : Decidable b.BindsItself := decidable_of_iff _ Body.any_states_iff

theorem Body.exists_joins_iff {b : Body} :
    (∃ t, (Node.term t).Within (.body b) ∧ t.Joins) ↔ b.BindsItself ∨ b.Mentions := by
  have hbody : ∀ t, (Node.term t).Within (.body b) ↔ ∃ e ∈ b, (Node.term t).Within (.expr e) := fun t => by
    rw [Node.within_iff, or_iff_right Node.noConfusion]
    simp [Node.parts]
  constructor
  · rintro ⟨t, ht, hjoins⟩
    obtain ⟨e, he, hwithin⟩ := (hbody t).1 ht
    rcases Expr.within_iff.1 hwithin with hstates | ⟨n, hn, hin⟩
    · exact .inl ⟨e, he, t, hstates, hjoins⟩
    · exact .inr ⟨e, he, n, hn, t, hin, hjoins⟩
  · rintro (⟨e, he, t, hstates, hjoins⟩ | ⟨e, he, n, hn, t, hin, hjoins⟩)
    · exact ⟨t, (hbody t).2 ⟨e, he, Expr.within_iff.2 (.inl hstates)⟩, hjoins⟩
    · exact ⟨t, (hbody t).2 ⟨e, he, Expr.within_iff.2 (.inr ⟨n, hn, hin⟩)⟩, hjoins⟩

/-! ## The contract -/

/-- The rule is a partial set of results, and each of its bodies, of which it has one at least, binds the
result or mentions a binding. -/
structure Rule.IsListing (r : Rule) : Prop where
  kind : r.head.kind = .partialSet
  key : r.head.key = some (.var "result")
  bodies : r.bodies ≠ []
  binds : ∀ b ∈ r.bodies, b.BindsItself ∨ b.Mentions

theorem Rule.isListing_iff {r : Rule} : r.IsListing ↔ r.returnsResult = true := by
  rw [← Bool.not_eq_false, Rule.returnsResult_eq_false_iff, IsMisshapen]
  simp only [not_or, not_not, not_exists, not_and, not_forall, exists_prop, Body.exists_joins_iff, ne_eq]
  constructor
  · intro h
    exact ⟨h.kind, h.key, h.bodies, h.binds⟩
  · rintro ⟨hkind, hkey, hbodies, hbinds⟩
    exact ⟨hkind, hkey, hbodies, hbinds⟩

namespace Module

variable {m : Module}

theorem not_isEmpty_rulesNamed {name : String} :
    ¬(m.rulesNamed name).isEmpty = true ↔ ∃ r ∈ m.rules, r.head.name = name := by
  simp only [isEmpty_rulesNamed, not_forall, not_not, exists_prop]

theorem all_returnsResult_iff : (m.rulesNamed violationsRule).all Rule.returnsResult = true ↔
    ∀ r ∈ m.rules, r.head.name = "violations" → r.IsListing := by
  simp only [List.all_eq_true, rulesNamed, List.mem_filter, decide_eq_true_iff, and_imp, Rule.isListing_iff]
  rfl

end Module

/-- **What a module without contract errors has**: a rule `pass`, and rules `violations` each of which is a
listing. -/
theorem contractErrors_eq_nil_iff (m : Module) :
    m.contractErrors = [] ↔ (∃ r ∈ m.rules, r.head.name = "pass") ∧
      (∃ r ∈ m.rules, r.head.name = "violations") ∧ ∀ r ∈ m.rules, r.head.name = "violations" → r.IsListing := by
  have hif : ∀ (b : Bool) (e : ContractError), (if b then [e] else []) = [] ↔ ¬b = true := by simp
  have hunless : ∀ (b : Bool) (e : ContractError), (if b then [] else [e]) = [] ↔ b = true := by simp
  rw [Module.contractErrors, List.append_eq_nil_iff, List.append_eq_nil_iff, hif, hif, hunless,
    Module.not_isEmpty_rulesNamed, Module.not_isEmpty_rulesNamed, Module.all_returnsResult_iff, and_assoc]
  rfl

/-- A binding in a comprehension is taken for one of the body, which binds its result to a text. -/
theorem not_forall_bindsItself : ¬ ∀ source m, Module.ofSource? source = .ok m → m.contractErrors = [] →
    ∀ r ∈ m.rules, r.head.name = "violations" → ∀ b ∈ r.bodies, b.BindsItself := by
  intro hall
  let source := "package p\npass \x7b true \x7d\nviolations[result] \x7b\n" ++
    "x := [y | result := \x7b\"pass\": true, \"id\": \"a\", \"name\": \"b\", \"message\": \"c\"\x7d; y := 1]\n" ++
    "result := \"oops\" \x7d\n"
  have hread : (Module.ofSource? source).toOption.any (fun m => m.contractErrors.isEmpty &&
      m.rules.any fun r => r.head.name = "violations" && r.bodies.any fun b => !decide b.BindsItself) = true := by
    decide +kernel
  cases hm : Module.ofSource? source with
  | error e =>
    rw [hm] at hread
    cases hread
  | ok m =>
    rw [hm] at hread
    obtain ⟨herrors, hrules⟩ := Bool.and_eq_true_iff.1 hread
    obtain ⟨r, hr, hrule⟩ := List.any_eq_true.1 hrules
    obtain ⟨hname, hbodies⟩ := Bool.and_eq_true_iff.1 hrule
    obtain ⟨b, hb, hnot⟩ := List.any_eq_true.1 hbodies
    have hbinds := hall source m hm (List.isEmpty_iff.1 herrors) r hr (of_decide_eq_true hname) b hb
    simp [hbinds] at hnot

end Gatehouse.Rego
