import Mathlib.Logic.Basic
import Gatehouse.Proofs.Rego.Parts
import Gatehouse.Proofs.Rego.Validation
import Gatehouse.Proofs.Text.Digits

/-!
# What is reported about a policy

1. **Names** (`IsInOrder`).  Rules that are at odds are reported by name, in the order of the names and once
   each.
2. **Declarations** (`Body.redeclared?`).  A place of a body is reported if it declares what a place before it
   declares.  The check keeps the names that were declared so far; the statement looks at the places before.
3. **The shape of violations** (`Rule.IsMisshapen`).  What a rule must not be is said of its parts, at any
   depth (`Node.Within`); the check looks through the walk.
4. **The report** (`Module.IsReportedAs`).  The three of these, the engine's complaint and the rules that are
   missing, in their order.
5. **Syntax errors** can be told apart: behind its place, no other message starts as theirs do
   (`Problem.exists_unreadable`).
-/

namespace Gatehouse.Rego

/-! ## Names -/

/-- The names of which something is true, in their order and once each. -/
structure IsInOrder (names : List String) (p : String → Prop) : Prop where
  ascending : names.Pairwise (· < ·)
  mem : ∀ name, name ∈ names ↔ p name

theorem nodup_distinct {α : Type} [DecidableEq α] (as : List α) : (distinct as).Nodup := by
  induction as with
  | nil => exact .nil
  | cons a as ih =>
    refine List.nodup_cons.2 ⟨fun h => ?_, ih.filter _⟩
    have hne := (List.mem_filter.1 h).2
    simp at hne

/-- Values are not all the same if two of them differ. -/
theorem one_lt_length_distinct {α : Type} [DecidableEq α] {as : List α} :
    1 < (distinct as).length ↔ ∃ a ∈ as, ∃ b ∈ as, a ≠ b := by
  cases as with
  | nil => simp [distinct]
  | cons a as =>
    have hlength : 1 < (distinct (a :: as)).length ↔ ∃ b ∈ as, b ≠ a := by
      rw [distinct, List.length_cons, Nat.lt_add_left_iff_pos, List.length_filter_pos_iff]
      simp only [mem_distinct, decide_eq_true_iff]
    rw [hlength]
    constructor
    · rintro ⟨b, hb, hne⟩
      exact ⟨b, List.mem_cons_of_mem a hb, a, List.mem_cons_self, hne⟩
    · rintro ⟨x, hx, y, hy, hne⟩
      by_cases hxa : x = a
      · exact ⟨y, (List.mem_cons.1 hy).resolve_left fun hya => hne (hxa.trans hya.symm),
          fun hya => hne (hxa.trans hya.symm)⟩
      · exact ⟨x, (List.mem_cons.1 hx).resolve_left hxa, hxa⟩

namespace Module

variable {m : Module}

theorem ruleNames_ascending : m.ruleNames.Pairwise (· < ·) := by
  have hle : m.ruleNames.Pairwise fun a b => decide (a ≤ b) = true := by
    refine List.pairwise_mergeSort (fun a b c hab hbc => ?_) (fun a b => ?_) _
    · rw [decide_eq_true_iff] at *
      exact String.le_trans hab hbc
    · simpa using String.le_total a b
  have hne : m.ruleNames.Nodup := (List.mergeSort_perm _ _).nodup_iff.2 (nodup_distinct _)
  exact (hle.and hne).imp fun h => Std.lt_of_le_of_ne (of_decide_eq_true h.1) h.2

/-- The rules whose names have some property are reported in order. -/
theorem isInOrder_filter {q : String → Bool} {p : String → Prop} (hq : ∀ name, q name = true ↔ p name)
    (hp : ∀ name, p name → ∃ r ∈ m.rules, r.head.name = name) : IsInOrder (m.ruleNames.filter q) p where
  ascending := ruleNames_ascending.filter q
  mem name := by
    rw [List.mem_filter, mem_ruleNames, hq]
    exact ⟨And.right, fun h => ⟨hp name h, h⟩⟩

/-- The rules of a name define things of different kinds. -/
def IsConflicting (m : Module) (name : String) : Prop :=
  ∃ r ∈ m.rules, ∃ s ∈ m.rules, r.head.name = name ∧ s.head.name = name ∧ r.head.kind ≠ s.head.kind

/-- A name has more than one default. -/
def IsDefaultedTwice (m : Module) (name : String) : Prop :=
  1 < m.rules.countP fun r => r.isDefault && r.head.name = name

theorem hasConflict_iff {name : String} : m.hasConflict name = true ↔ m.IsConflicting name := by
  rw [hasConflict, decide_eq_true_iff, one_lt_length_distinct]
  simp only [rulesNamed, List.mem_map, List.mem_filter, decide_eq_true_iff, IsConflicting]
  constructor
  · rintro ⟨_, ⟨r, ⟨hr, hrname⟩, rfl⟩, _, ⟨s, ⟨hs, hsname⟩, rfl⟩, hne⟩
    exact ⟨r, hr, s, hs, hrname, hsname, hne⟩
  · rintro ⟨r, hr, s, hs, hrname, hsname, hne⟩
    exact ⟨_, ⟨r, ⟨hr, hrname⟩, rfl⟩, _, ⟨s, ⟨hs, hsname⟩, rfl⟩, hne⟩

theorem hasDefaults_iff {name : String} : m.hasDefaults name = true ↔ m.IsDefaultedTwice name := by
  rw [hasDefaults, decide_eq_true_iff, rulesNamed, List.filter_filter, ← List.countP_eq_length_filter]
  rfl

theorem isInOrder_conflictingNames : IsInOrder m.conflictingNames m.IsConflicting := by
  refine isInOrder_filter (fun _ => hasConflict_iff) fun name h => ?_
  obtain ⟨r, hr, -, -, hname, -⟩ := h
  exact ⟨r, hr, hname⟩

theorem isInOrder_multiplyDefaulted : IsInOrder m.multiplyDefaulted m.IsDefaultedTwice := by
  refine isInOrder_filter (fun _ => hasDefaults_iff) fun name h => ?_
  obtain ⟨r, hr, hname⟩ := List.countP_pos_iff.1 (Nat.lt_of_succ_lt h)
  exact ⟨r, hr, of_decide_eq_true (Bool.and_eq_true _ _ ▸ hname).2⟩

end Module

/-! ## Declarations -/

/-- An expression declares a variable: it is `name := value`, and the name is not `_`. -/
def Expr.Declares (e : Expr) (name : String) : Prop :=
  name ≠ "_" ∧ ∃ value, e.goal = .term (.binary .assign (.var name) value)

theorem Expr.declares?_eq_some {e : Expr} {name : String} : e.declares? = some name ↔ e.Declares name := by
  constructor
  · intro h
    unfold declares? at h
    split at h
    · rename_i x value hgoal
      split at h
      · cases h
      · rename_i hx
        obtain rfl := Option.some.inj h
        exact ⟨hx, value, hgoal⟩
    · cases h
  · rintro ⟨hname, value, hgoal⟩
    rw [declares?, hgoal]
    exact if_neg hname

/-- What is reported of the place `i` of a body. -/
def Body.redeclared? (b : Body) (i : Nat) : Option CompileError := do
  let e ← b[i]?
  let name ← e.declares?
  if ∃ d ∈ b.take i, d.declares? = some name then some (.redeclared name e.location) else none

theorem Body.redeclared?_eq_some {b : Body} {i : Nat} {error : CompileError} :
    b.redeclared? i = some error ↔
      ∃ e name, b[i]? = some e ∧ e.Declares name ∧ (∃ d ∈ b.take i, d.Declares name) ∧
        error = .redeclared name e.location := by
  simp only [redeclared?, Option.bind_eq_bind, Option.bind_eq_some_iff, ← Expr.declares?_eq_some]
  constructor
  · rintro ⟨e, he, name, hname, h⟩
    split at h
    · rename_i hbefore
      exact ⟨e, name, he, hname, hbefore, (Option.some.inj h).symm⟩
    · cases h
  · rintro ⟨e, name, he, hname, hbefore, rfl⟩
    exact ⟨e, he, name, hname, if_pos hbefore⟩

/-- With the names that are declared before some expressions, the check goes through the places of these. -/
theorem redeclaredAfter_eq {declared : List String} {before : Body}
    (h : ∀ name, name ∈ declared ↔ ∃ d ∈ before, d.declares? = some name) (es : Body) :
    redeclaredAfter declared es =
      (List.range' before.length es.length).filterMap (Body.redeclared? (before ++ es)) := by
  induction es generalizing declared before with
  | nil => rfl
  | cons e es ih =>
    have hplace : Body.redeclared? (before ++ e :: es) before.length =
        e.declares?.bind fun name =>
          if name ∈ declared then some (.redeclared name e.location) else none := by
      rw [Body.redeclared?, List.getElem?_append_right (Nat.le_refl _), Nat.sub_self,
        List.take_left]
      simp only [← h]
      rfl
    have hrest : ∀ next : List String,
        (∀ name, name ∈ next ↔ ∃ d ∈ before ++ [e], d.declares? = some name) →
        redeclaredAfter next es =
          (List.range' (before.length + 1) es.length).filterMap (Body.redeclared? (before ++ e :: es)) := by
      intro next hnext
      simpa using ih hnext
    rw [List.length_cons, List.range'_succ, List.filterMap_cons, hplace, redeclaredAfter]
    -- whether or not `e` is reported, its variable is declared before the places behind it
    cases hdeclares : e.declares? with
    | none => exact hrest declared fun name => by simp [h, hdeclares]
    | some x =>
      by_cases hx : x ∈ declared
      · have hnext := hrest declared fun name => by
          rw [h]
          grind
        simp [hx, hnext]
      · have hnext := hrest (x :: declared) fun name => by
          rw [List.mem_cons, h]
          grind
        simp [hx, hnext]

theorem redeclaredAfter_nil (b : Body) :
    redeclaredAfter [] b = (List.range b.length).filterMap b.redeclared? := by
  have hnone : ∀ name, name ∈ ([] : List String) ↔ ∃ d ∈ ([] : Body), d.declares? = some name := by simp
  rw [List.range_eq_range']
  exact redeclaredAfter_eq hnone b

/-! ## The shape of violations -/

/-- The pairs of an object have every required key. -/
def AreComplete (pairs : List (Term × Term)) : Prop :=
  ∀ key ∈ ["pass", "id", "name", "message"], ∃ value, (Term.string key, value) ∈ pairs

/-- The term joins the variable of the results, on either side, with an object literal that has every
required key. -/
inductive Term.Joins : Term → Prop
  | left {op : BinOp} {pairs : List (Term × Term)} (hop : op = .assign ∨ op = .unify)
    (h : AreComplete pairs) : Joins (.binary op (.var "result") (.object pairs))
  | right {op : BinOp} {pairs : List (Term × Term)} (hop : op = .assign ∨ op = .unify)
    (h : AreComplete pairs) : Joins (.binary op (.object pairs) (.var "result"))

/-- The rule is no partial set of results, has no body, or has a body in which no term, at any depth, joins
the result with what a violation has to say. -/
def Rule.IsMisshapen (r : Rule) : Prop :=
  r.head.kind ≠ .partialSet ∨ r.head.key ≠ some (.var "result") ∨ r.bodies = [] ∨
    ∃ b ∈ r.bodies, ∀ t, (Node.term t).Within (.body b) → ¬t.Joins

theorem Term.isResult_iff {t : Term} : t.isResult = true ↔ t = .var "result" := by
  cases t <;> simp [isResult, asVar?, resultVar]

theorem Term.isViolation_iff {t : Term} :
    t.isViolation = true ↔ ∃ pairs, t = .object pairs ∧ AreComplete pairs := by
  cases t with
  | object pairs =>
    have hkey : ∀ key, key ∈ pairs.filterMap (fun p => p.1.asString?) ↔
        ∃ value, (Term.string key, value) ∈ pairs := by
      intro key
      rw [List.mem_filterMap]
      constructor
      · rintro ⟨⟨t, value⟩, hp, ht⟩
        cases t <;> cases ht
        exact ⟨value, hp⟩
      · rintro ⟨value, hp⟩
        exact ⟨_, hp, rfl⟩
    simp only [isViolation, stringKeys?, requiredFields, List.all_eq_true, List.contains_iff_mem, hkey,
      Term.object.injEq, exists_eq_left', AreComplete]
  | _ => simp [isViolation, stringKeys?]

theorem Term.bindsResult_iff {t : Term} : t.bindsResult = true ↔ t.Joins := by
  have hbinary : ∀ op lhs rhs, (Term.binary op lhs rhs).bindsResult = true ↔
      (op = .assign ∨ op = .unify) ∧
        ((lhs = .var "result" ∧ ∃ pairs, rhs = .object pairs ∧ AreComplete pairs) ∨
          rhs = .var "result" ∧ ∃ pairs, lhs = .object pairs ∧ AreComplete pairs) := by
    intro op lhs rhs
    simp only [bindsResult, Bool.and_eq_true, Bool.or_eq_true, decide_eq_true_iff, isResult_iff,
      isViolation_iff]
  constructor
  · intro h
    cases t with
    | binary op lhs rhs =>
      obtain ⟨hop, ⟨rfl, pairs, rfl, hkeys⟩ | ⟨rfl, pairs, rfl, hkeys⟩⟩ := (hbinary op lhs rhs).1 h
      · exact .left hop hkeys
      · exact .right hop hkeys
    | _ => cases h
  · intro h
    cases h with
    | left hop hkeys => exact (hbinary _ _ _).2 ⟨hop, .inl ⟨rfl, _, rfl, hkeys⟩⟩
    | right hop hkeys => exact (hbinary _ _ _).2 ⟨hop, .inr ⟨rfl, _, rfl, hkeys⟩⟩

theorem Body.bindsResult_iff {b : Body} :
    b.bindsResult = true ↔ ∃ t, (Node.term t).Within (.body b) ∧ t.Joins := by
  simp only [bindsResult, List.any_eq_true, Body.mem_terms, Term.bindsResult_iff]

theorem Rule.returnsResult_eq_false_iff {r : Rule} : r.returnsResult = false ↔ r.IsMisshapen := by
  have hkey : r.head.key.any Term.isResult = true ↔ r.head.key = some (.var "result") := by
    cases r.head.key <;> simp [Term.isResult_iff]
  have hbodies : (r.bodies.all Body.bindsResult = true) ↔
      ¬∃ b ∈ r.bodies, ∀ t, (Node.term t).Within (.body b) → ¬t.Joins := by
    simp only [List.all_eq_true, Body.bindsResult_iff, not_exists, not_and, not_forall, not_not, exists_prop]
  rw [← Bool.not_eq_true, returnsResult, IsMisshapen]
  simp only [Bool.and_eq_true, decide_eq_true_iff, hkey, Bool.not_eq_true', List.isEmpty_eq_false_iff, hbodies,
    not_and_or, not_not, or_assoc, ne_eq]

instance (r : Rule) : Decidable r.IsMisshapen := decidable_of_iff _ Rule.returnsResult_eq_false_iff

/-! ## Syntax errors -/

/-- A message behind its place, if it has one. -/
def afterPlace (message : String) : List Char :=
  message.toList.dropWhile fun c => c.isDigit || c = ':' || c = ' '

/-- How a syntax error starts behind its place. -/
def syntaxMark : List Char := ['r', 'e', 'g', 'o', '_', 'p']

theorem afterPlace_toText (l : Location) (message : String) :
    afterPlace (l.toText ++ ": " ++ message) = afterPlace message := by
  have hplace : ∀ c ∈ (l.toText ++ ": ").toList, (c.isDigit || c = ':' || c = ' ') = true := by
    have hdigit : ∀ n : Nat, ∀ c ∈ (toString n).toList, c.isDigit = true := by
      intro n c hc
      exact Nat.isDigit_of_mem_toDigits (b := 10) (n := n) (by decide) (by decide) (by simpa using hc)
    intro c hc
    simp only [Location.toText, String.toList_append, List.mem_append] at hc
    rcases hc with ((hc | hc) | hc) | hc
    · simp [hdigit _ c hc]
    · simp at hc
      simp [hc]
    · simp [hdigit _ c hc]
    · simp at hc
      rcases hc with rfl | rfl <;> rfl
  rw [afterPlace, String.toList_append, List.dropWhile_append_of_pos hplace]
  rfl

/-- A start that is long enough tells how the whole starts. -/
theorem take_afterPlace_append {s : String} (h : 6 ≤ (afterPlace s).length) (rest : String) :
    (afterPlace (s ++ rest)).take 6 = (afterPlace s).take 6 := by
  have hne : ((s.toList.dropWhile fun c => c.isDigit || c = ':' || c = ' ').isEmpty) = false := by
    rw [List.isEmpty_eq_false_iff]
    intro hnil
    rw [afterPlace, hnil] at h
    exact absurd h (by decide)
  rw [afterPlace, String.toList_append, List.dropWhile_append, hne]
  exact List.take_append_of_le_length h

theorem take_afterPlace_syntaxError (e : SyntaxError) : (afterPlace e.message).take 6 = syntaxMark := by
  have hmark : (afterPlace ("rego_parse_error: " ++ e.complaint)).take 6 = syntaxMark :=
    take_afterPlace_append (by decide +kernel) e.complaint
  rw [SyntaxError.message]
  cases e.location? with
  | none => exact hmark
  | some l =>
    rw [String.append_assoc]
    exact (congrArg (List.take 6) (afterPlace_toText l _)).trans hmark

theorem take_afterPlace_compileError (e : CompileError) : (afterPlace e.message).take 6 ≠ syntaxMark := by
  cases e with
  | conflictingRules path =>
    show (afterPlace ("rego_type_error: conflicting rules " ++ path ++ " found")).take 6 ≠ syntaxMark
    rw [String.append_assoc, take_afterPlace_append (by decide +kernel)]
    decide +kernel
  | multipleDefaults path =>
    show (afterPlace ("rego_type_error: multiple default rules " ++ path ++ " found")).take 6 ≠ syntaxMark
    rw [String.append_assoc, take_afterPlace_append (by decide +kernel)]
    decide +kernel
  | redeclared name l =>
    have hsplit : ": rego_compile_error: var " = ": " ++ "rego_compile_error: var " := by decide +kernel
    have hplace : (CompileError.redeclared name l).message =
        l.toText ++ ": " ++ ("rego_compile_error: var " ++ (name ++ " assigned above")) := by
      show l.toText ++ ": rego_compile_error: var " ++ name ++ " assigned above" = _
      rw [hsplit]
      simp only [String.append_assoc]
    rw [hplace, afterPlace_toText, take_afterPlace_append (by decide +kernel)]
    decide +kernel
  | refused complaint =>
    show (afterPlace ("rego_compile_error: " ++ complaint)).take 6 ≠ syntaxMark
    rw [take_afterPlace_append (by decide +kernel)]
    decide +kernel

/-- Only a syntax error has the message of one. -/
theorem Problem.exists_unreadable {p : Problem} {e : SyntaxError} (h : p.message = e.message) :
    ∃ e', p = .unreadable e' := by
  have hmark : (afterPlace p.message).take 6 = syntaxMark := h ▸ take_afterPlace_syntaxError e
  cases p with
  | unreadable e' => exact ⟨e', rfl⟩
  | uncompilable e' => exact absurd hmark (take_afterPlace_compileError e')
  | unfit e' => cases e' <;> exact absurd hmark (by decide +kernel)

/-! ## The report -/

/-- The message, if there is reason for it. -/
def reportedIf (reason : Prop) [Decidable reason] (message : String) : List String :=
  if reason then [message] else []

/-- What is to be said of the rules of a module, and of what the rule engine says against it. -/
def Module.compileReport (m : Module) (complaint : Option String) : List String :=
  m.conflictingNames.map (fun name => "rego_type_error: conflicting rules " ++ m.rulePath name ++ " found") ++
    m.multiplyDefaulted.map
      (fun name => "rego_type_error: multiple default rules " ++ m.rulePath name ++ " found") ++
    m.allBodies.flatMap
      (fun b => ((List.range b.length).filterMap b.redeclared?).map CompileError.message) ++
    complaint.toList.map ("rego_compile_error: " ++ ·)

/-- What is to be said of the rules that a module has to have. -/
def Module.contractReport (m : Module) : List String :=
  reportedIf (∀ r ∈ m.rules, r.head.name ≠ "pass") "all policies must contain a \"pass\" rule" ++
    reportedIf (∀ r ∈ m.rules, r.head.name ≠ "violations")
      "all policies must contain a \"violations\" rule" ++
    reportedIf (∃ r ∈ m.rules, r.head.name = "violations" ∧ r.IsMisshapen)
      "all \"violations\" rules must return a \"result\" object containing \"pass\", \"id\", \"name\" and \"message\""

/-- The errors are what is to be said of a module, part by part. -/
structure Module.IsReportedAs (m : Module) (complaint : Option String) (errors : List String) : Prop where
  errors_eq : errors = m.compileReport complaint ++ m.contractReport
  conflicts : IsInOrder m.conflictingNames m.IsConflicting
  defaults : IsInOrder m.multiplyDefaulted m.IsDefaultedTwice
  /-- Bodies are those at any depth in a rule, in the order of the walk. -/
  bodies : ∀ b, b ∈ m.allBodies ↔ ∃ r ∈ m.rules, (Node.body b).Within (.rule r)
  walk : ∀ n : Node, n.nodes = n :: n.parts.flatMap Node.nodes
  /-- A place is reported for a variable that it declares, and that a place before it declares too. -/
  places : ∀ (b : Body) i error, b.redeclared? i = some error ↔
    ∃ e name, b[i]? = some e ∧ e.Declares name ∧ (∃ d ∈ b.take i, d.Declares name) ∧
      error = .redeclared name e.location

theorem map_message_if {b : Bool} {reason : Prop} [Decidable reason] (h : b = true ↔ reason)
    (e : ContractError) :
    (if b then [e] else []).map ContractError.message = reportedIf reason e.message := by
  by_cases hreason : reason
  · rw [reportedIf, if_pos hreason, if_pos (h.2 hreason)]
    rfl
  · rw [reportedIf, if_neg hreason, if_neg (mt h.1 hreason)]
    rfl

namespace Module

variable {m : Module}

theorem isEmpty_rulesNamed {name : String} :
    (m.rulesNamed name).isEmpty = true ↔ ∀ r ∈ m.rules, r.head.name ≠ name := by
  rw [List.isEmpty_iff, rulesNamed, List.filter_eq_nil_iff]
  simp only [decide_eq_true_iff]

theorem contractErrors_messages :
    m.contractErrors.map ContractError.message = m.contractReport := by
  have hshape : (!(m.rulesNamed violationsRule).all Rule.returnsResult) = true ↔
      ∃ r ∈ m.rules, r.head.name = "violations" ∧ r.IsMisshapen := by
    simp only [Bool.not_eq_true', List.all_eq_false, Bool.not_eq_true, rulesNamed, List.mem_filter,
      decide_eq_true_iff, Rule.returnsResult_eq_false_iff, and_assoc]
    rfl
  have hswap : (if (m.rulesNamed violationsRule).all Rule.returnsResult then [] else [ContractError.badShape]) =
      if !(m.rulesNamed violationsRule).all Rule.returnsResult then [ContractError.badShape] else [] := by
    cases (m.rulesNamed violationsRule).all Rule.returnsResult <;> rfl
  rw [contractErrors, hswap, List.map_append, List.map_append, map_message_if isEmpty_rulesNamed,
    map_message_if isEmpty_rulesNamed, map_message_if hshape]
  rfl

theorem compileErrors_messages (refusal : Refusal) (source : String) :
    (m.compileErrors refusal source).map CompileError.message = m.compileReport (refusal source) := by
  have hredeclared : m.redeclarations.map CompileError.message = m.allBodies.flatMap
      (fun b => ((List.range b.length).filterMap b.redeclared?).map CompileError.message) := by
    rw [redeclarations, List.map_flatMap]
    simp only [redeclaredAfter_nil]
  have hrefused : ((refusal source).map CompileError.refused).toList.map CompileError.message =
      (refusal source).toList.map ("rego_compile_error: " ++ ·) := by
    cases refusal source <;> rfl
  rw [compileErrors, localErrors, List.map_append, List.map_append, List.map_append, hredeclared, hrefused,
    List.map_map, List.map_map]
  rfl

end Module

variable {refusal : Refusal} {source : String}

theorem validate_of_error {e : SyntaxError} (h : Module.ofSource? source = .error e) :
    validate refusal source = ⟨false, [e.message]⟩ := by
  rw [validate, problems, h]
  rfl

/-- What is said of a source that is a module is the report on the module. -/
theorem isReportedAs_of_ok {m : Module} (h : Module.ofSource? source = .ok m) :
    m.IsReportedAs (refusal source) (validate refusal source).errors where
  errors_eq := by
    rw [← Module.compileErrors_messages, ← Module.contractErrors_messages, validate, problems, h,
      Verdict.ofProblems]
    simp only [List.map_append, List.map_map]
    rfl
  conflicts := Module.isInOrder_conflictingNames
  defaults := Module.isInOrder_multiplyDefaulted
  bodies _ := Module.mem_allBodies
  walk := Node.nodes_eq
  places _ _ _ := Body.redeclared?_eq_some

/-- One syntax error is reported if and only if there is one. -/
theorem exists_syntaxError_iff :
    (∃ e : SyntaxError, validate refusal source = ⟨false, [e.message]⟩) ↔
      ∃ e, Module.ofSource? source = .error e := by
  constructor
  · rintro ⟨e, he⟩
    cases hsource : Module.ofSource? source with
    | error e' => exact ⟨e', rfl⟩
    | ok m =>
      have hmessages : (problems refusal source).map Problem.message = [e.message] :=
        congrArg Verdict.errors he
      obtain ⟨p, hp, hmessage⟩ := List.map_eq_singleton_iff.1 hmessages
      obtain ⟨e', rfl⟩ := Problem.exists_unreadable hmessage
      -- the problems of a module are all of other kinds
      have hmem : Problem.unreadable e' ∈ problems refusal source := hp ▸ List.mem_singleton_self _
      rw [problems, hsource] at hmem
      simp at hmem
  · rintro ⟨e, he⟩
    exact ⟨e, validate_of_error he⟩

/-- **What is reported about a source.**  A source that is no module has its syntax error as its one
problem, whatever the rule engine would say of it, and no other source has a syntax error as its one
problem.  Of a module the report is told: rules at odds in the order of their names, and every place of every
body that declares what was declared before.  A source is valid if it compiles, that is, if nothing is
reported. -/
theorem validate_reports (refusal : Refusal) (source : String) :
    ((∃ e : SyntaxError, validate refusal source = ⟨false, [e.message]⟩) ↔
        ∃ e, Module.ofSource? source = .error e) ∧
      (∀ e, Module.ofSource? source = .error e → validate refusal source = ⟨false, [e.message]⟩) ∧
      (∀ m, Module.ofSource? source = .ok m →
        m.IsReportedAs (refusal source) (validate refusal source).errors) ∧
      ((validate refusal source).isValid = true ↔ (validate refusal source).compile = true) ∧
      ((validate refusal source).compile = true ↔ (validate refusal source).errors = []) := by
  refine ⟨exists_syntaxError_iff, fun e he => validate_of_error he, fun m hm => isReportedAs_of_ok hm,
    ?_, ?_⟩
  · rw [validate, Verdict.isValid_ofProblems, Verdict.ofProblems, List.isEmpty_iff]
  · rw [validate, Verdict.ofProblems, List.isEmpty_iff, List.map_eq_nil_iff]

/-- A source without a package, and a module whose rules are at odds. -/
theorem validate_reports_conflict :
    let refusal : Refusal := fun _ => some "no"
    let source := "package p\nv { true }\nv[x] { x := 1 }\n"
    (∃ e, Module.ofSource? "v { true }\n" = .error e ∧
        validate refusal "v { true }\n" = ⟨false, [e.message]⟩) ∧
      ∃ m, Module.ofSource? source = .ok m ∧ m.IsConflicting "v" ∧
        "rego_type_error: conflicting rules data.p.v found" ∈ (validate refusal source).errors ∧
        (validate refusal source).compile = false := by
  intro refusal source
  constructor
  · obtain ⟨hiff, herror, -⟩ := validate_reports refusal "v { true }\n"
    obtain ⟨e, he⟩ := hiff.1 ⟨.missingPackage, by decide +kernel⟩
    exact ⟨e, he, herror e he⟩
  · have hread : (Module.ofSource? source).toOption.any
        (fun m => m.hasConflict "v" && m.rulePath "v" = "data.p.v") = true := by
      decide +kernel
    cases hm : Module.ofSource? source with
    | error e =>
      rw [hm] at hread
      cases hread
    | ok m =>
      rw [hm] at hread
      obtain ⟨hconflict, hpath⟩ := Bool.and_eq_true_iff.1 hread
      obtain ⟨-, -, hmodule, -, hcompile⟩ := validate_reports refusal source
      have hreported := hmodule m hm
      have hname : "v" ∈ m.conflictingNames :=
        (hreported.conflicts.mem "v").2 (Module.hasConflict_iff.1 hconflict)
      have hmem : "rego_type_error: conflicting rules data.p.v found" ∈ (validate refusal source).errors := by
        rw [hreported.errors_eq, Module.compileReport]
        simp only [List.append_assoc]
        refine List.mem_append_left _ (List.mem_map.2 ⟨"v", hname, ?_⟩)
        rw [of_decide_eq_true hpath]
        decide +kernel
      refine ⟨m, rfl, Module.hasConflict_iff.1 hconflict, hmem, Bool.eq_false_iff.2 fun h => ?_⟩
      exact List.ne_nil_of_mem hmem (hcompile.1 h)

end Gatehouse.Rego
