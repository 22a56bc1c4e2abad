import Gatehouse.Proofs.Rego.Alike
import Gatehouse.Proofs.Rego.Grammar

/-!
# The grammar in step

One lemma for each rule of the grammar: two runs of it are in step, if those of what stands further in are.

The steps of the loops over items and expressions look for the closing symbol, and so does the loop over a body.  They
have to stop before the end of the comparison, and what follows them takes the closing symbol.  All other rules may
stop at the end.
-/

namespace Gatehouse.Rego.Ends

open Gatehouse.Text Gatehouse.Rego.Parser
open Placed (unplaced)

variable (e : Ends) in
/-- What stands one level further in is in step. -/
structure KeepsInner (i j : Inner) : Prop where
  term : ∀ {c d : Cursor}, e.Around c d → e.Keeps 0 c d i.term j.term
  body : ∀ {c d : Cursor}, e.Around c d → e.Keeps 0 c d i.body j.body

variable {e : Ends} {i j : Inner} {c d : Cursor} {α β : Type} [Placed α] [Placed β]

/-! ## Operators -/

theorem keeps_joinStep {right right' : Nat → Parser Term} (h : e.Around c d)
    (hright : ∀ least, e.Keeps 0 c d (right least) (right' least)) (least : Nat) {t u : Term}
    (htu : unplaced t = unplaced u) : e.Keeps 0 c d (joinStep right least t) (joinStep right' least u) := by
  refine keeps_operator h (keeps_pure rfl) fun op v w hvw hne => ?_
  refine KeepsAt.ite ((keeps_pure rfl).at v w) ?_
  have hjoin : e.Keeps 0 c d (right (op.precedence + 1) >>= fun rhs => pure (some (Term.binary op t rhs)))
      (right' (op.precedence + 1) >>= fun rhs => pure (some (Term.binary op u rhs))) :=
    (hright _).bind fun rhs rhs' hrhs => keeps_pure (by simp [htu, hrhs])
  exact keepsAt_advance hvw hne (fun _ => hjoin.shrinks) hjoin

theorem keeps_binaryUpTo {term term' : Parser Term} (h : e.Around c d) (hterm : e.Keeps 0 c d term term')
    (levels least : Nat) : e.Keeps 0 c d (binaryUpTo term levels least) (binaryUpTo term' levels least) := by
  induction levels generalizing least with
  | zero => exact ⟨fun _ => Nat.le_refl _, fun _ _ _ _ => .stuckLeft _ _⟩
  | succ levels ih =>
    exact hterm.bind fun first first' hfirst => keeps_fold (fun t u htu => keeps_joinStep h ih least htu) hfirst

theorem keeps_binary (hi : e.KeepsInner i j) (h : e.Around c d) (least : Nat) :
    e.Keeps 0 c d (binary i least) (binary j least) := keeps_binaryUpTo h (hi.term h) 8 least

/-! ## Lists -/

section

variable {close : Symbol} {item item' : Parser α}

theorem keeps_afterComma (h : e.Around c d) (hitem : e.Keeps 0 c d item item') :
    e.Keeps 1 c d (afterComma close item) (afterComma close item') := by
  refine keeps_branch h (isFair_symbol _) (letsClose_symbol (by decide)) ?_ (keeps_pure rfl)
  refine (keeps_atSymbol h close).bind fun closed closed' hclosed => ?_
  obtain rfl : closed = closed' := hclosed
  exact .ite (keeps_pure rfl) (hitem.mono.bind fun a b hab => keeps_pure (congrArg some hab))

/-- What is left of a list after its first item, up to and including the closing symbol. -/
theorem takes_listed (h : e.Around c d) (hitem : e.Keeps 0 c d item item') {make make' : List α → β}
    (hmake : ∀ as bs, unplaced as = unplaced bs → unplaced (make as) = unplaced (make' bs)) : e.Takes c d
      (do
        let rest ← many (afterComma close item)
        expectSymbol close
        return make rest)
      (do
        let rest ← many (afterComma close item')
        expectSymbol close
        return make' rest) :=
  (keeps_afterComma h hitem).many.closes fun as bs hab =>
    (takes_expectSymbol h close).bind fun _ _ _ => keeps_pure (hmake as bs hab)

theorem takes_listUntil (h : e.Around c d) (hitem : e.Keeps 0 c d item item') :
    e.Takes c d (listUntil close item) (listUntil close item') := by
  refine (keeps_atSymbol h close).closes fun closed closed' hclosed => ?_
  obtain rfl : closed = closed' := hclosed
  refine .ite ((takes_expectSymbol h close).bind fun _ _ _ => keeps_pure rfl) ?_
  exact hitem.mono.closes fun a b hab => takes_listed h hitem fun as bs habs => by simp [hab, habs]

end

theorem keeps_arguments (hi : e.KeepsInner i j) (h : e.Around c d) : e.Keeps 0 c d (arguments i) (arguments j) := by
  have hinside := (h.withNewlines false).withUnion true
  exact keeps_withNewlines false (keeps_withUnion true (takes_listUntil hinside (keeps_binary hi hinside 0)).toKeeps)

/-! ## Bodies -/

theorem keeps_afterCommaOperand (hi : e.KeepsInner i j) (h : e.Around c d) :
    e.Keeps 0 c d (afterCommaOperand i) (afterCommaOperand j) :=
  keeps_branch h (isFair_symbol _) (letsClose_symbol (by decide))
    ((keeps_binary hi h 2).bind fun _ _ htu => keeps_pure (congrArg some htu)) (keeps_pure rfl)

theorem keeps_declaration (hi : e.KeepsInner i j) (h : e.Around c d) :
    e.Keeps 0 c d (declaration i) (declaration j) := by
  refine (keeps_binary hi h 2).bind fun first first' hfirst => ?_
  refine (keeps_afterCommaOperand hi h).many.bind fun rest rest' hrest => ?_
  refine keeps_branch h (isFair_word _) (letsClose_word _) ((keeps_binary hi h 2).bind fun coll coll' hcoll => ?_) ?_
  · rcases rest with _ | ⟨second, _ | ⟨third, rest⟩⟩
    · obtain rfl := List.map_eq_nil_iff.1 hrest.symm
      exact keeps_pure (by simp [hfirst, hcoll])
    · obtain ⟨second', rest', rfl, hsecond, hnil⟩ := List.map_eq_cons_iff.1 hrest.symm
      obtain rfl := List.map_eq_nil_iff.1 hnil
      exact keeps_pure (by simp [hfirst, hsecond, hcoll])
    · obtain ⟨second', rest', rfl, -, hmore⟩ := List.map_eq_cons_iff.1 hrest.symm
      obtain ⟨third', rest', rfl, -, -⟩ := List.map_eq_cons_iff.1 hmore
      exact keeps_unexpected h _
  · have hvars : asVars? (first :: rest) = asVars? (first' :: rest') := by
      rw [← asVars?_unplaced, ← asVars?_unplaced (first' :: rest'), unplaced_cons, unplaced_cons, hfirst, hrest]
    rw [hvars]
    cases asVars? (first' :: rest') with
    | some names => exact keeps_pure rfl
    | none => exact keeps_unexpected h _

theorem keeps_iteration (hi : e.KeepsInner i j) (h : e.Around c d) : e.Keeps 0 c d (iteration i) (iteration j) := by
  refine (hi.term h).bind fun first first' hfirst => ?_
  refine keeps_branch h (isFair_symbol _) (letsClose_symbol (by decide)) ?_ (keeps_pure (by simp [hfirst]))
  exact (hi.term h).bind fun second second' hsecond => keeps_pure (by simp [hfirst, hsecond])

theorem keeps_quantification (hi : e.KeepsInner i j) (h : e.Around c d) :
    e.Keeps 0 c d (quantification i) (quantification j) := by
  refine (keeps_iteration hi h).bind fun ⟨key, item⟩ ⟨key', item'⟩ hvars => ?_
  obtain ⟨hkey, hitem⟩ := Prod.mk.inj hvars
  refine (keeps_expectWord h _).bind fun _ _ _ => (keeps_binary hi h 2).bind fun domain domain' hdomain => ?_
  exact (hi.body h).bind fun body body' hbody => keeps_pure (by simp [hkey, hitem, hdomain, hbody])

theorem keeps_replacement (hi : e.KeepsInner i j) (h : e.Around c d) :
    e.Keeps 0 c d (replacement i) (replacement j) := by
  refine keeps_branch h (isFair_word _) (letsClose_word _) ?_ (keeps_pure rfl)
  refine (keeps_binary hi h 1).bind fun target target' htarget => (keeps_expectWord h _).bind fun _ _ _ => ?_
  exact (keeps_binary hi h 1).bind fun term term' hterm => keeps_pure (by simp [htarget, hterm])

theorem keeps_literal (hi : e.KeepsInner i j) (h : e.Around c d) : e.Keeps 0 c d (literal i) (literal j) := by
  refine (keeps_place h).bind fun location location' _ => ?_
  refine keeps_branch h (isFair_word _) (letsClose_word _) ?_ (keeps_branch h (isFair_word _) (letsClose_word _) ?_ ?_)
  · exact (keeps_declaration hi h).bind fun goal goal' hgoal => keeps_pure (by simp [hgoal])
  · exact (keeps_quantification hi h).bind fun goal goal' hgoal => keeps_pure (by simp [hgoal])
  · have hrest : ∀ negated, e.Keeps 0 c d
        (do
          let term ← expression i
          let replacing ← many (replacement i)
          return Expr.mk (.term term) negated replacing location)
        (do
          let term ← expression j
          let replacing ← many (replacement j)
          return Expr.mk (.term term) negated replacing location') := fun negated =>
      (keeps_binary hi h 0).bind fun term term' hterm => (keeps_replacement hi h).many.bind fun pairs pairs' hpairs =>
        keeps_pure (by simp [hterm, hpairs])
    exact keeps_takeIf h (isFair_word _) (letsClose_word _) (hrest true) (hrest false)

theorem keeps_bodyStep (hi : e.KeepsInner i j) (h : e.Around c d) (close : Symbol) :
    e.Keeps 1 c d (bodyStep i close) (bodyStep j close) := by
  refine (keeps_skip passes_isSeparator).bind fun _ _ _ => ?_
  refine (keeps_atSymbol h close).bind fun closed closed' hclosed => ?_
  obtain rfl : closed = closed' := hclosed
  refine .ite (keeps_pure rfl) ((keeps_literal hi h).mono.bind fun expr expr' hexpr => ?_)
  refine keeps_of_peek h (fun t u htu => ?_) fun t u hwhole ht hu => ?_
  · have hsame : isSeparator t = isSeparator u := passes_isSeparator.kind t u htu.kind
    rw [hsame, ← htu.kind]
    exact KeepsAt.ite ((keeps_pure (congrArg some hexpr)).at t u) ((keeps_unexpected h _).at t u)
  · refine keepsAtEnds_of_shrinks hwhole ?_
    split
    · exact fun _ => Nat.le_refl _
    · exact (keeps_unexpected (α := Option Expr) (k := 0) h _).shrinks

theorem keeps_query (hi : e.KeepsInner i j) (h : e.Around c d) (close : Symbol) :
    e.Keeps 1 c d (query i close) (query j close) :=
  keeps_withNewlines true (keeps_bodyStep hi (h.withNewlines true) close).many

/-- A body, up to and including the symbol that closes it. -/
theorem takes_closed (hi : e.KeepsInner i j) (h : e.Around c d) (close : Symbol) {make make' : Body → α}
    (hmake : ∀ b b' : Body, unplaced b = unplaced b' → unplaced (make b) = unplaced (make' b')) : e.Takes c d
      (do
        let body ← query i close
        expectSymbol close
        return make body)
      (do
        let body ← query j close
        expectSymbol close
        return make' body) :=
  (keeps_query hi h close).closes fun b b' hb =>
    (takes_expectSymbol h close).bind fun _ _ _ => keeps_pure (hmake b b' hb)

theorem keeps_block (hi : e.KeepsInner i j) (h : e.Around c d) : e.Keeps 0 c d (block i) (block j) :=
  (takes_expectSymbol h _).toKeeps.bind fun _ _ _ => (takes_closed hi h _ fun _ _ hb => hb).toKeeps

/-! ## Terms -/

theorem keeps_index (hi : e.KeepsInner i j) (h : e.Around c d) : e.Keeps 0 c d
    (withNewlines false (withUnion true (expression i))) (withNewlines false (withUnion true (expression j))) :=
  keeps_withNewlines false (keeps_withUnion true (keeps_binary hi ((h.withNewlines false).withUnion true) 0))

theorem keeps_postfixStep (hi : e.KeepsInner i j) (h : e.Around c d) {t u : Term} (htu : unplaced t = unplaced u) :
    e.Keeps 0 c d (postfixStep i t) (postfixStep j u) := by
  refine keeps_branch h (isFair_tight _) (letsClose_tight (by decide)) ?_
    (keeps_branch h (isFair_tight _) (letsClose_tight (by decide)) ?_
      (keeps_branch h (isFair_tight _) (letsClose_tight (by decide)) ?_ (keeps_pure rfl)))
  · refine (keeps_expectName h _ _).bind fun field field' hfield => keeps_pure ?_
    obtain rfl : field = field' := hfield
    rw [unplaced_some, unplaced_some, unplaced_access, unplaced_access, htu]
  · refine (keeps_index hi h).bind fun index index' hindex => ?_
    refine (takes_expectSymbol h _).toKeeps.bind fun _ _ _ => keeps_pure ?_
    rw [unplaced_some, unplaced_some, unplaced_access, unplaced_access, htu, unplaced_index, unplaced_index, hindex]
  · exact (keeps_arguments hi h).bind fun args args' hargs => keeps_pure (by simp [htu, hargs])

theorem keeps_accessed (hi : e.KeepsInner i j) (h : e.Around c d) {t u : Term} (htu : unplaced t = unplaced u) :
    e.Keeps 0 c d (accessed i t) (accessed j u) := keeps_fold (fun _ _ htu => keeps_postfixStep hi h htu) htu

theorem keeps_element (hi : e.KeepsInner i j) (h : e.Around c d) : e.Keeps 0 c d (element i) (element j) :=
  keeps_withUnion false (keeps_binary hi (h.withUnion false) 1)

theorem keeps_bracketed (hi : e.KeepsInner i j) (h : e.Around c d) : e.Keeps 0 c d (bracketed i) (bracketed j) := by
  refine (takes_branch h (isFair_symbol _) (keeps_pure rfl)
    ((keeps_element hi h).mono.closes fun first first' hfirst => ?_)).toKeeps
  refine takes_branch h (isFair_symbol _) (takes_closed hi h _ fun b b' hb => ?_).toKeeps
    (takes_listed h (keeps_element hi h) fun ts us htu => ?_)
  · simp [hfirst, hb]
  · simp [hfirst, htu]

theorem keeps_pair (hi : e.KeepsInner i j) (h : e.Around c d) : e.Keeps 0 c d (pair i) (pair j) := by
  refine (keeps_element hi h).bind fun key key' hkey => (takes_expectSymbol h _).toKeeps.bind fun _ _ _ => ?_
  exact (keeps_element hi h).bind fun item item' hitem => keeps_pure (by simp [hkey, hitem])

theorem keeps_braced (hi : e.KeepsInner i j) (h : e.Around c d) : e.Keeps 0 c d (braced i) (braced j) := by
  refine (takes_branch h (isFair_symbol _) (keeps_pure rfl)
    ((keeps_element hi h).mono.closes fun first first' hfirst => ?_)).toKeeps
  refine takes_branch h (isFair_symbol _) ((keeps_element hi h).mono.closes fun item item' hitem => ?_).toKeeps ?_
  · refine takes_branch h (isFair_symbol _) (takes_closed hi h _ fun b b' hb => ?_).toKeeps
      (takes_listed h (keeps_pair hi h) fun ps qs hpq => ?_)
    · simp [hfirst, hitem, hb]
    · simp [hfirst, hitem, hpq]
  · refine takes_branch h (isFair_symbol _) (takes_closed hi h _ fun b b' hb => ?_).toKeeps
      (takes_listed h (keeps_element hi h) fun ts us htu => ?_)
    · simp [hfirst, hb]
    · simp [hfirst, htu]

theorem keeps_named (hi : e.KeepsInner i j) (h : e.Around c d) (name : String) :
    e.Keeps 0 c d (named i name) (named j name) :=
  .ite (keeps_pure rfl) (.ite (keeps_pure rfl) (.ite (keeps_pure rfl) (keeps_accessed hi h rfl)))

theorem keeps_primary (hi : e.KeepsInner i j) (h : e.Around c d) : e.Keeps 0 c d (primary i) (primary j) := by
  refine keeps_of_peek h (fun ⟨kind, location, spaced⟩ ⟨kind', location', spaced'⟩ htu => ?_) fun t u hwhole ht hu => ?_
  · obtain rfl : kind = kind' := htu.kind
    have hcomplain := keeps_unexpected (α := Term) (k := 0) h "term"
    have htaken : ∀ {p q : Parser Term}, kind ≠ .newline → e.Keeps 0 c d p q → e.KeepsAt 0 c d
        ⟨kind, location, spaced⟩ ⟨kind, location', spaced'⟩ (advance >>= fun _ => p) (advance >>= fun _ => q) :=
      fun hne hpq => keepsAt_advance htu hne (fun _ => hpq.shrinks) hpq
    cases kind with
    | name name => exact .ite (htaken Kind.noConfusion (keeps_named hi h name)) (hcomplain.at _ _)
    | string value => exact htaken Kind.noConfusion (keeps_pure rfl)
    | number text => exact htaken Kind.noConfusion (keeps_pure rfl)
    | symbol s =>
      cases s with
      | minus =>
        refine htaken Kind.noConfusion ((hi.term h).bind fun term term' hterm => keeps_pure ?_)
        simp [hterm]
      | lparen =>
        refine htaken Kind.noConfusion ((keeps_index hi h).bind fun term term' hterm => ?_)
        exact (takes_expectSymbol h _).toKeeps.bind fun _ _ _ => keeps_accessed hi h hterm
      | lbracket =>
        refine htaken Kind.noConfusion ?_
        exact (keeps_withNewlines false (keeps_bracketed hi (h.withNewlines false))).bind fun term term' hterm =>
          keeps_accessed hi h hterm
      | lbrace =>
        exact htaken Kind.noConfusion (keeps_withNewlines false (keeps_braced hi (h.withNewlines false)))
      | _ => exact hcomplain.at _ _
    | _ => exact hcomplain.at _ _
  · -- no term begins with a symbol that closes a body
    have hcomplain := (takes_unexpected (α := Term) h "term").agrees e.left e.right .ends
    rcases ht with ht | ht <;> rcases hu with hu | hu <;> rw [ht, hu] <;> exact hcomplain

/-! ## Nesting -/

/-- **What stands further in is in step**, whatever levels there are to spare. -/
theorem keepsInner_inner (n m : Nat) : e.KeepsInner (inner n) (inner m) := by
  induction n generalizing m with
  | zero =>
    have hstuck : ∀ {α : Type} [Placed α] {c d : Cursor} {q : Parser α}, e.Keeps 0 c d stuck q := fun {_ _ _ _ _} =>
      ⟨fun _ => Nat.le_refl _, fun _ _ _ _ => .stuckLeft _ _⟩
    cases m with
    | zero => exact ⟨fun h => keeps_nested (q := stuck) h hstuck, fun h => keeps_nested (q := stuck) h hstuck⟩
    | succ m => exact ⟨fun h => keeps_nested (q := primary (inner m)) h hstuck, fun h =>
        keeps_nested (q := block (inner m)) h hstuck⟩
  | succ n ih =>
    cases m with
    | zero =>
      have hstuck : ∀ {α : Type} [Placed α] {c d : Cursor} {p : Parser α}, Shrinks p → e.Keeps 0 c d p stuck :=
        fun hp => ⟨hp, fun _ _ _ _ => .stuckRight _ _⟩
      exact ⟨fun h => keeps_nested h (hstuck (steady_primary (isSteady_inner n)).shrinks), fun h =>
        keeps_nested h (hstuck (steady_block (isSteady_inner n)).shrinks)⟩
    | succ m => exact ⟨fun h => keeps_nested h (keeps_primary (ih m) h.nested), fun h =>
        keeps_nested h (keeps_block (ih m) h.nested)⟩

theorem keepsInner_outermost : e.KeepsInner outermost outermost := keepsInner_inner maxNesting maxNesting

/-! ## Rules -/

theorem keeps_signature (h : e.Around c d) : e.Keeps 0 c d signature signature := by
  have hi := keepsInner_outermost (e := e)
  refine keeps_branch h (isFair_tight _) (letsClose_tight (by decide)) ?_
    (keeps_branch h (isFair_tight _) (letsClose_tight (by decide)) ?_
      (keeps_branch h (isFair_word _) (letsClose_word _) ?_ (keeps_pure rfl)))
  · exact (keeps_arguments hi h).bind fun args args' hargs => keeps_pure (by simp [hargs])
  · refine (keeps_withNewlines false (keeps_binary hi (h.withNewlines false) 0)).bind fun key key' hkey => ?_
    exact (takes_expectSymbol h _).toKeeps.bind fun _ _ _ => keeps_pure (by simp [hkey])
  · exact (keeps_binary hi h 1).bind fun key key' hkey => keeps_pure (by simp [hkey])

theorem keeps_valueClause (h : e.Around c d) : e.Keeps 0 c d valueClause valueClause := by
  have hi := keepsInner_outermost (e := e)
  refine keeps_branch h (isFair_symbol _) (letsClose_symbol (by decide)) ?_
    (keeps_branch h (isFair_symbol _) (letsClose_symbol (by decide)) ?_ (keeps_pure rfl))
  · exact (keeps_binary hi h 1).bind fun term term' hterm => keeps_pure (by simp [hterm])
  · exact (keeps_binary hi h 1).bind fun term term' hterm => keeps_pure (by simp [hterm])

theorem keeps_head (h : e.Around c d) : e.Keeps 0 c d head head := by
  refine (keeps_expectName h _ _).bind fun name name' hname => ?_
  obtain rfl : name = name' := hname
  refine (keeps_signature h).bind fun ⟨kind, args, key⟩ ⟨kind', args', key'⟩ hsignature => ?_
  simp only [unplaced_mk, Prod.mk.injEq] at hsignature
  obtain ⟨hkind, hargs, hkey⟩ := hsignature
  obtain rfl : kind = kind' := hkind
  refine (keeps_valueClause h).bind fun clause clause' hclause => ?_
  rcases clause with _ | ⟨assigned, term⟩ <;> rcases clause' with _ | ⟨assigned', term'⟩
  · exact keeps_pure (by simp [hargs, hkey])
  · cases hclause
  · cases hclause
  · obtain ⟨hassigned, hterm⟩ := Prod.mk.inj (Option.some.inj hclause)
    obtain rfl : assigned = assigned' := hassigned
    exact keeps_pure (by simp [hargs, hkey, hterm])

theorem keeps_ifBody (h : e.Around c d) : e.Keeps 0 c d ifBody ifBody := by
  refine (keeps_atOther h (by decide)).bind fun braced braced' hbraced => ?_
  obtain rfl : braced = braced' := hbraced
  refine .ite (keepsInner_outermost.body h) ?_
  exact (keeps_literal keepsInner_outermost h).bind fun expr expr' hexpr => keeps_pure (by simp [hexpr])

theorem keeps_anotherBlock (h : e.Around c d) : e.Keeps 0 c d anotherBlock anotherBlock := by
  refine (keeps_atOther h (by decide)).bind fun braced braced' hbraced => ?_
  obtain rfl : braced = braced' := hbraced
  refine .ite ?_ (keeps_pure rfl)
  exact (keepsInner_outermost.body h).bind fun body body' hbody => keeps_pure (congrArg some hbody)

theorem keeps_bodies (h : e.Around c d) : e.Keeps 0 c d bodies bodies := by
  refine keeps_branch h (isFair_word _) (letsClose_word _) ?_ (keeps_anotherBlock h).many
  refine (keeps_ifBody h).bind fun first first' hfirst => (keeps_anotherBlock h).many.bind fun rest rest' hrest => ?_
  exact keeps_pure (by simp [hfirst, hrest])

theorem keeps_alternative (h : e.Around c d) : e.Keeps 0 c d alternative alternative := by
  refine (keeps_place h).bind fun location location' _ => ?_
  refine keeps_branch h (isFair_word _) (letsClose_word _) ?_ (keeps_pure rfl)
  refine (keeps_valueClause h).bind fun clause clause' hclause => ?_
  have hmade : ∀ {body body' : Body}, unplaced body = unplaced body' →
      unplaced (some (Otherwise.mk (clause.map Prod.snd) body location)) =
        unplaced (some (Otherwise.mk (clause'.map Prod.snd) body' location')) := by
    intro body body' hbody
    have hvalue : unplaced (clause.map Prod.snd) = unplaced (clause'.map Prod.snd) := by
      have hsnd : ∀ clause : Option (Bool × Term), unplaced (clause.map Prod.snd) = (unplaced clause).map Prod.snd :=
        fun clause => by cases clause <;> rfl
      rw [hsnd, hsnd, hclause]
    simp [hvalue, hbody]
  refine keeps_branch h (isFair_word _) (letsClose_word _) ?_ ?_
  · exact (keeps_ifBody h).bind fun body body' hbody => keeps_pure (hmade hbody)
  · refine (keeps_atOther h (by decide)).bind fun braced braced' hbraced => ?_
    obtain rfl : braced = braced' := hbraced
    refine .ite ?_ (keeps_pure (hmade rfl))
    exact (keepsInner_outermost.body h).bind fun body body' hbody => keeps_pure (hmade hbody)

theorem keeps_rule (h : e.Around c d) : e.Keeps 0 c d rule rule := by
  refine (keeps_place h).bind fun location location' _ => ?_
  have hrest : ∀ (isDefault : Bool) {p q : Parser (List Body)}, e.Keeps 0 c d p q → ∀ {head head' : Head},
      unplaced head = unplaced head' → e.Keeps 0 c d
        (do
          let bodies ← p
          let otherwise ← many alternative
          return (⟨isDefault, head, bodies, otherwise, location⟩ : Rule))
        (do
          let bodies ← q
          let otherwise ← many alternative
          return (⟨isDefault, head', bodies, otherwise, location'⟩ : Rule)) := by
    intro isDefault p q hpq head head' hhead
    refine hpq.bind fun bodies bodies' hbodies => (keeps_alternative h).many.bind fun other other' hother => ?_
    exact keeps_pure (by simp [hhead, hbodies, hother])
  refine keeps_takeIf h (isFair_word _) (letsClose_word _) ?_ ?_
  · exact (keeps_head h).bind fun head head' hhead => hrest true (keeps_pure rfl) hhead
  · exact (keeps_head h).bind fun head head' hhead => hrest false (keeps_bodies h) hhead

/-! ## Modules -/

theorem keeps_segment (h : e.Around c d) (hwhole : e.Whole) (hc : c.keepsNewlines = false) :
    e.Keeps 0 c d segment segment := by
  refine keeps_branch h (isFair_tight _) (letsClose_tight (by decide)) ?_
    (keeps_branch h (isFair_tight _) (letsClose_tight (by decide)) ?_ (keeps_pure rfl))
  · exact (keeps_expectName h _ _).bind fun name name' hname => keeps_pure (congrArg some hname)
  · refine keeps_advance h hwhole hc fun ⟨kind, location, spaced⟩ ⟨kind', location', spaced'⟩ htu => ?_
    obtain rfl : kind = kind' := htu.kind
    cases kind with
    | string name => exact (takes_expectSymbol h _).toKeeps.bind fun _ _ _ => keeps_pure rfl
    | _ => exact keeps_unexpected h _

theorem keeps_package (h : e.Around c d) (hwhole : e.Whole) (hc : c.keepsNewlines = false) :
    e.Keeps 0 c d package package := by
  refine (keeps_place h).bind fun location location' _ => keeps_advance h hwhole hc fun _ _ _ => ?_
  refine (keeps_expectName h _ _).bind fun first first' hfirst => ?_
  obtain rfl : first = first' := hfirst
  refine (keeps_segment h hwhole hc).many.bind fun rest rest' hrest => keeps_pure ?_
  have hnames : ∀ names : List String, unplaced names = names := List.map_id
  rw [hnames, hnames] at hrest
  simp [hrest]

theorem keeps_import? (h : e.Around c d) : e.Keeps 0 c d import? Rego.import? := by
  refine (keeps_skip passes_isNewline).bind fun _ _ _ => (keeps_place h).bind fun location location' _ => ?_
  refine keeps_branch h (isFair_word _) (letsClose_word _) ?_ (keeps_pure rfl)
  refine (keepsInner_outermost.term h).bind fun path path' hpath => ?_
  refine keeps_branch h (isFair_word _) (letsClose_word _) ?_ (keeps_pure ?_)
  · refine (keeps_expectName h _ _).bind fun name name' hname => keeps_pure ?_
    obtain rfl : name = name' := hname
    simp [hpath]
  · simp [hpath]

theorem keeps_semicolon (h : e.Around c d) : e.Keeps 0 c d semicolon semicolon :=
  keeps_branch h (isFair_symbol _) (letsClose_symbol (by decide))
    ((keeps_skip passes_isNewline).bind fun _ _ _ => keeps_pure rfl) (keeps_pure rfl)

theorem keeps_rule? (h : e.Around c d) : e.Keeps 0 c d rule? rule? := by
  refine (keeps_skip passes_isNewline).bind fun _ _ _ => (keeps_semicolon h).many.bind fun _ _ _ => ?_
  refine (keeps_atEnd h).bind fun ended ended' hended => ?_
  obtain rfl : ended = ended' := hended
  exact .ite (keeps_pure rfl) ((keeps_rule h).bind fun r r' hr => keeps_pure (congrArg some hr))

/-- **Modules are in step.** -/
theorem keeps_module (h : e.Around c d) (hwhole : e.Whole) (hc : c.keepsNewlines = false) :
    e.Keeps 0 c d module module := by
  refine (keeps_skip passes_isNewline).bind fun _ _ _ => (keeps_atWord h _).bind fun found found' hfound => ?_
  obtain rfl : found = found' := hfound
  refine .ite ((keeps_package h hwhole hc).bind fun package package' hpackage => ?_) (keeps_fail rfl)
  refine (keeps_import? h).many.bind fun imports imports' himports => ?_
  refine (keeps_rule? h).many.bind fun rules rules' hrules => keeps_pure ?_
  simp [hpackage, himports, hrules]

end Gatehouse.Rego.Ends
