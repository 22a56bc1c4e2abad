import Gatehouse.Proofs.Rego.Parser
import Gatehouse.Rego.Grammar

/-!
# What the rules of the grammar do to the cursor

One lemma for each rule of the grammar: it is steady, with as many levels to spare as the rules further
in need.  A rule for a term, an expression or a body uses up a token whenever it answers, and that is what
lets every loop get on.
-/

namespace Gatehouse.Rego

open Gatehouse.Text Gatehouse.Rego.Parser

/-- What stands one level further in is steady, and uses up a token. -/
structure Inner.IsSteady (n : Nat) (inner : Inner) : Prop where
  term : Steady n inner.term always
  body : Steady n inner.body always

section

variable {n : Nat} {inner : Inner} {α : Type}

/-! ## Operators -/

theorem BinOp.precedence_le (op : BinOp) : op.precedence ≤ 6 := by
  cases op <;> decide

theorem steady_operator : Steady n operator never := by
  refine steady_peek.before fun next c => ?_
  exact .of_done rfl (.refl c) (fun hc => hc.closed) fun _ => False.elim

theorem steady_joinStep {right : Nat → Parser Term} {least : Nat}
    (h : ∀ op : BinOp, least ≤ op.precedence → Steady n (right (op.precedence + 1)) always) (left : Term) :
    Steady n (joinStep right least left) (·.isSome = true) := by
  refine steady_operator.before fun op => ?_
  cases op with
  | none => exact steady_pure_of nofun
  | some op =>
    refine .ite (fun _ => steady_pure_of nofun) fun hleast => ?_
    exact steady_advance.before fun _ => (h op (Nat.not_lt.1 hleast)).then fun _ => steady_pure _

/-- There are enough precedences: each right operand is joined more tightly than what it stands in. -/
theorem steady_binaryUpTo {term : Parser Term} (h : Steady n term always) {levels least : Nat}
    (hlevels : 8 ≤ levels + least) (hleast : least ≤ 7) : Steady n (binaryUpTo term levels least) always := by
  induction levels generalizing least with
  | zero => omega
  | succ levels ih =>
    refine h.then fun first => Steady.fold (fun left => ?_) first
    refine steady_joinStep (fun op hop => ?_) left
    have htight := op.precedence_le
    exact ih (by omega) (by omega)

theorem steady_binary (h : inner.IsSteady n) {least : Nat} (hleast : least ≤ 7) :
    Steady n (binary inner least) always := steady_binaryUpTo h.term (Nat.le_add_right 8 least) hleast

theorem steady_expression (h : inner.IsSteady n) : Steady n (expression inner) always :=
  steady_binary h (by decide)

theorem steady_value (h : inner.IsSteady n) : Steady n (value inner) always := steady_binary h (by decide)

theorem steady_operand (h : inner.IsSteady n) : Steady n (operand inner) always := steady_binary h (by decide)

/-! ## Lists -/

theorem steady_afterComma {close : Symbol} {item : Parser α} (h : Steady n item never) :
    Steady n (afterComma close item) (·.isSome = true) := by
  refine (steady_takeSymbol _).branch ?_ (steady_pure_of nofun)
  refine (steady_atSymbol _).before fun closed => .ite (fun _ => steady_pure _) fun _ => ?_
  exact h.before fun _ => steady_pure _

/-- What is left of a list after its first item, up to and including the closing symbol. -/
theorem steady_listed {β : Type} {close : Symbol} {item : Parser α} (h : Steady n item never)
    (make : List α → β) : Steady n (do
      let rest ← many (afterComma close item)
      expectSymbol close
      return make rest) always := by
  refine (steady_afterComma h).many.before fun rest => ?_
  exact (steady_expectSymbol _).then fun _ => steady_pure _

theorem steady_listUntil {close : Symbol} {item : Parser α} (h : Steady n item never) :
    Steady n (listUntil close item) always := by
  refine (steady_atSymbol _).before fun closed => .ite (fun _ => ?_) fun _ => ?_
  · exact (steady_expectSymbol _).then fun _ => steady_pure _
  · exact h.before fun first => steady_listed h _

theorem steady_arguments (h : inner.IsSteady n) : Steady n (arguments inner) always :=
  ((steady_listUntil (steady_expression h).forget).withUnion true).withNewlines false

/-! ## Bodies -/

theorem steady_afterCommaOperand (h : inner.IsSteady n) :
    Steady n (afterCommaOperand inner) (·.isSome = true) := by
  refine (steady_takeSymbol _).branch ?_ (steady_pure_of nofun)
  exact (steady_operand h).then fun _ => steady_pure _

theorem steady_declaration (h : inner.IsSteady n) : Steady n (declaration inner) always := by
  refine (steady_operand h).then fun first => (steady_afterCommaOperand h).many.before fun rest => ?_
  refine (steady_takeWord _).forget.before fun more => .ite (fun _ => ?_) fun _ => ?_
  · refine (steady_operand h).then fun collection => ?_
    rcases rest with _ | ⟨second, _ | _⟩
    · exact steady_pure _
    · exact steady_pure _
    · exact steady_unexpected _ _
  · cases asVars? (first :: rest) with
    | some names => exact steady_pure _
    | none => exact steady_unexpected _ _

theorem steady_iteration (h : inner.IsSteady n) : Steady n (iteration inner) always := by
  refine h.term.then fun first => ?_
  exact (steady_takeSymbol _).branch (h.term.then fun second => steady_pure _) (steady_pure _)

theorem steady_quantification (h : inner.IsSteady n) : Steady n (quantification inner) always := by
  refine (steady_iteration h).then fun vars => (steady_expectWord _).then fun _ => ?_
  exact (steady_operand h).then fun domain => h.body.then fun body => steady_pure _

theorem steady_replacement (h : inner.IsSteady n) : Steady n (replacement inner) (·.isSome = true) := by
  refine (steady_takeWord _).branch ?_ (steady_pure_of nofun)
  refine (steady_value h).then fun target => (steady_expectWord _).then fun _ => ?_
  exact (steady_value h).then fun replaced => steady_pure _

theorem steady_literal (h : inner.IsSteady n) : Steady n (literal inner) always := by
  refine steady_place.before fun location => ?_
  refine (steady_takeWord _).branch ((steady_declaration h).then fun goal => steady_pure _) ?_
  refine (steady_takeWord _).branch ((steady_quantification h).then fun goal => steady_pure _) ?_
  refine (steady_takeWord _).forget.before fun negated => (steady_expression h).then fun term => ?_
  exact (steady_replacement h).many.before fun replacing => steady_pure _

theorem steady_skipSeparators : Steady n skipSeparators never :=
  steady_skip fun t ht => by simp [isSeparator, ht]

theorem steady_bodyStep (h : inner.IsSteady n) (close : Symbol) :
    Steady n (bodyStep inner close) (·.isSome = true) := by
  refine steady_skipSeparators.before fun _ => (steady_atSymbol _).before fun closed => ?_
  refine .ite (fun _ => steady_pure_of nofun) fun _ => (steady_literal h).then fun expr => ?_
  exact steady_peek.before fun next => .ite (fun _ => steady_pure _) fun _ => steady_unexpected _ _

theorem steady_query (h : inner.IsSteady n) (close : Symbol) : Steady n (query inner close) never :=
  (steady_bodyStep h close).many.withNewlines true

theorem steady_block (h : inner.IsSteady n) : Steady n (block inner) always := by
  refine (steady_expectSymbol _).then fun _ => (steady_query h _).before fun body => ?_
  exact (steady_expectSymbol _).then fun _ => steady_pure _

/-! ## Terms -/

theorem steady_index (h : inner.IsSteady n) :
    Steady n (withNewlines false (withUnion true (expression inner))) always :=
  ((steady_expression h).withUnion true).withNewlines false

theorem steady_postfixStep (h : inner.IsSteady n) (t : Term) :
    Steady n (postfixStep inner t) (·.isSome = true) := by
  refine (steady_takeTight _).branch ?_ ?_
  · exact (steady_expectName _ _).then fun field => steady_pure _
  refine (steady_takeTight _).branch ?_ ?_
  · exact (steady_index h).then fun index => (steady_expectSymbol _).then fun _ => steady_pure _
  refine (steady_takeTight _).branch ?_ (steady_pure_of nofun)
  exact (steady_arguments h).then fun args => steady_pure _

theorem steady_accessed (h : inner.IsSteady n) (t : Term) : Steady n (accessed inner t) never :=
  Steady.fold (steady_postfixStep h) t

theorem steady_element (h : inner.IsSteady n) : Steady n (element inner) always :=
  (steady_value h).withUnion false

/-- The body of a comprehension, up to and including the closing symbol. -/
theorem steady_comprehended {β : Type} (h : inner.IsSteady n) {close : Symbol} (make : Body → β) :
    Steady n (do
      let body ← query inner close
      expectSymbol close
      return make body) always := by
  refine (steady_query h _).before fun body => ?_
  exact (steady_expectSymbol _).then fun _ => steady_pure _

theorem steady_bracketed (h : inner.IsSteady n) : Steady n (bracketed inner) never := by
  refine (steady_takeSymbol _).branch (steady_pure _) ((steady_element h).then fun first => ?_)
  refine (steady_takeSymbol _).branch (steady_comprehended h _).forget ?_
  exact (steady_listed (steady_element h).forget _).forget

theorem steady_pair (h : inner.IsSteady n) : Steady n (pair inner) always := by
  refine (steady_element h).then fun key => (steady_expectSymbol _).then fun _ => ?_
  exact (steady_element h).then fun item => steady_pure _

theorem steady_braced (h : inner.IsSteady n) : Steady n (braced inner) never := by
  refine (steady_takeSymbol _).branch (steady_pure _) ((steady_element h).then fun first => ?_)
  refine (steady_takeSymbol _).branch ((steady_element h).then fun item => ?_) ?_
  · refine (steady_takeSymbol _).branch (steady_comprehended h _).forget ?_
    exact (steady_listed (steady_pair h).forget _).forget
  · refine (steady_takeSymbol _).branch (steady_comprehended h _).forget ?_
    exact (steady_listed (steady_element h).forget _).forget

theorem steady_named (h : inner.IsSteady n) (name : String) : Steady n (named inner name) never := by
  refine .ite (fun _ => steady_pure _) fun _ => .ite (fun _ => steady_pure _) fun _ => ?_
  exact .ite (fun _ => steady_pure _) fun _ => steady_accessed h _

theorem steady_primary (h : inner.IsSteady n) : Steady n (primary inner) always := by
  refine .of_peek fun ⟨kind, location, spaced⟩ => ?_
  have hcomplain : ∀ t, SteadyAt n t (unexpected (α := Term) "term") always :=
    (steady_unexpected _ _).at
  cases kind with
  | name name =>
    by_cases hplain : isPlainName name = true
    · simp only [hplain, if_true]
      exact steadyAt_advance Kind.noConfusion fun _ => steady_named h name
    · simp only [hplain]
      exact hcomplain _
  | string value => exact steadyAt_advance Kind.noConfusion fun _ => steady_pure _
  | number text => exact steadyAt_advance Kind.noConfusion fun _ => steady_pure _
  | symbol s =>
    cases s with
    | minus => exact steadyAt_advance Kind.noConfusion fun _ => h.term.then fun term => steady_pure _
    | lparen =>
      refine steadyAt_advance Kind.noConfusion fun _ => (steady_index h).then fun term => ?_
      exact (steady_expectSymbol _).then fun _ => steady_accessed h term
    | lbracket =>
      refine steadyAt_advance Kind.noConfusion fun _ => ?_
      exact ((steady_bracketed h).withNewlines false).before fun term => steady_accessed h term
    | lbrace => exact steadyAt_advance Kind.noConfusion fun _ => (steady_braced h).withNewlines false
    | _ => exact hcomplain _
  | _ => exact hcomplain _

end

/-! ## Nesting -/

/-- With `n` levels to spare, what stands further in is steady. -/
theorem isSteady_inner (n : Nat) : (inner n).IsSteady n := by
  induction n with
  | zero => exact ⟨steady_nested_stuck _, steady_nested_stuck _⟩
  | succ n ih => exact ⟨(steady_primary ih).nested, (steady_block ih).nested⟩

theorem isSteady_outermost : outermost.IsSteady maxNesting := isSteady_inner maxNesting

/-! ## Rules -/

theorem steady_signature : Steady maxNesting signature never := by
  have h := isSteady_outermost
  refine (steady_takeTight _).branch ((steady_arguments h).then fun args => steady_pure _) ?_
  refine (steady_takeTight _).branch ?_ ?_
  · refine ((steady_expression h).withNewlines false).then fun key => ?_
    exact (steady_expectSymbol _).then fun _ => steady_pure _
  · exact (steady_takeWord _).branch ((steady_value h).then fun key => steady_pure _) (steady_pure _)

theorem steady_valueClause : Steady maxNesting valueClause never := by
  have h := isSteady_outermost
  refine (steady_takeSymbol _).branch ((steady_value h).then fun item => steady_pure _) ?_
  exact (steady_takeSymbol _).branch ((steady_value h).then fun item => steady_pure _) (steady_pure _)

theorem steady_head : Steady maxNesting head always := by
  refine (steady_expectName _ _).then fun name => steady_signature.before fun signature => ?_
  refine steady_valueClause.before fun clause => ?_
  cases clause with
  | some clause => exact steady_pure _
  | none => exact steady_pure _

theorem steady_ifBody : Steady maxNesting ifBody always := by
  refine (steady_atSymbol _).before fun braced => .ite (fun _ => isSteady_outermost.body) fun _ => ?_
  exact (steady_literal isSteady_outermost).then fun expr => steady_pure _

theorem steady_anotherBlock : Steady maxNesting anotherBlock (·.isSome = true) := by
  refine (steady_atSymbol _).before fun braced => .ite (fun _ => ?_) fun _ => steady_pure_of nofun
  exact isSteady_outermost.body.then fun body => steady_pure _

theorem steady_bodies : Steady maxNesting bodies never := by
  refine (steady_takeWord _).branch ?_ steady_anotherBlock.many
  exact steady_ifBody.then fun first => steady_anotherBlock.many.before fun rest => steady_pure _

theorem steady_alternative : Steady maxNesting alternative (·.isSome = true) := by
  refine steady_place.before fun location => (steady_takeWord _).branch ?_ (steady_pure_of nofun)
  refine steady_valueClause.before fun clause => ?_
  refine (steady_takeWord _).branch (steady_ifBody.then fun body => steady_pure _) ?_
  refine (steady_atSymbol _).before fun braced => .ite (fun _ => ?_) fun _ => steady_pure _
  exact isSteady_outermost.body.then fun body => steady_pure _

theorem steady_rule : Steady maxNesting rule always := by
  refine steady_place.before fun location => (steady_takeWord _).forget.before fun isDefault => ?_
  refine steady_head.then fun head => .ite (fun _ => ?_) fun _ => ?_
  · exact (steady_pure _).before fun bodies => steady_alternative.many.before fun otherwise => steady_pure _
  · exact steady_bodies.before fun bodies => steady_alternative.many.before fun otherwise => steady_pure _

/-! ## Modules -/

theorem steady_segment : Steady maxNesting segment (·.isSome = true) := by
  refine (steady_takeTight _).branch ((steady_expectName _ _).then fun name => steady_pure _) ?_
  refine (steady_takeTight _).branch ?_ (steady_pure_of nofun)
  refine steady_advance.before fun ⟨kind, location, spaced⟩ => ?_
  cases kind with
  | string name => exact (steady_expectSymbol _).then fun _ => steady_pure _
  | _ => exact steady_unexpected _ _

theorem steady_package : Steady maxNesting package always := by
  refine steady_place.before fun location => steady_advance.before fun _ => ?_
  exact (steady_expectName _ _).then fun first => steady_segment.many.before fun rest => steady_pure _

theorem steady_import? : Steady maxNesting import? (·.isSome = true) := by
  refine steady_skipNewlines.before fun _ => steady_place.before fun location => ?_
  refine (steady_takeWord _).branch ?_ (steady_pure_of nofun)
  refine isSteady_outermost.term.then fun path => ?_
  refine (steady_takeWord _).branch ?_ (steady_pure _)
  exact (steady_expectName _ _).then fun name => steady_pure _

theorem steady_semicolon : Steady maxNesting semicolon (·.isSome = true) := by
  refine (steady_takeSymbol _).branch ?_ (steady_pure_of nofun)
  exact steady_skipNewlines.before fun _ => steady_pure _

theorem steady_rule? : Steady maxNesting rule? (·.isSome = true) := by
  refine steady_skipNewlines.before fun _ => steady_semicolon.many.before fun _ => ?_
  refine steady_atEnd.before fun ended => .ite (fun _ => steady_pure_of nofun) fun _ => ?_
  exact steady_rule.then fun r => steady_pure _

theorem steady_module : Steady maxNesting module always := by
  refine steady_skipNewlines.before fun _ => (steady_atWord _).before fun found => ?_
  refine .ite (fun _ => ?_) fun _ => steady_fail _ _
  refine steady_package.then fun package => steady_import?.many.before fun imports => ?_
  exact steady_rule?.many.before fun rules => steady_pure _

end Gatehouse.Rego
