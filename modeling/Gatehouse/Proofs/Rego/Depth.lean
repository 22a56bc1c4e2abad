import Gatehouse.Proofs.Rego.Parts
import Gatehouse.Proofs.Rego.Source

/-!
# How deep trees are

1. **Operands** (`Node.operand?`, `Node.beside`).  The parser puts operators, calls and paths around a term that it has
   read.  That term is the operand; all other parts are read further in.
2. **Depth** (`Node.Descends`).  How many nodes there are on the way down from a node.  A weight says what a step
   to an operand counts.
3. **What a parser yields** (`Parser.Yields`), with one rule for each way to put parsers together.
4. **The bound** (`Node.Shallow`).  If what stands one level further in is `k` deep, then what is read here is
   no deeper than `k + 10`: seven right operands, and at most three nodes around the terms or the body
   further in.  So the levels bound the depth, if the steps to operands do not count.
5. **No bound on operands** (`not_forall_descends_le`).  The loops go on as long as the text does, and one level of
   nesting is enough for them.
-/

namespace Gatehouse.Rego

open Gatehouse.Rego.Parser

/-! ## Operands -/

/-- The term around which the parser has put an operator, a call or a path. -/
def Term.operand? : Term → Option Term
  | .binary _ lhs _ => some lhs
  | .call func _ => some func
  | .ref head _ => some head
  | _ => none

/-- What stands directly in a term, besides its operand. -/
def Term.beside : Term → List Node
  | .binary _ _ rhs => [.term rhs]
  | .call _ args => args.map .term
  | .ref _ path => path.flatMap Access.parts
  | t => t.parts

theorem Term.parts_eq (t : Term) : t.parts = (t.operand?.map Node.term).toList ++ t.beside := by
  cases t <;> rfl

namespace Node

/-- The operand of a node that is a term. -/
def operand? : Node → Option Term
  | term t => t.operand?
  | _ => none

/-- What stands directly in a node, besides its operand. -/
def beside : Node → List Node
  | term t => t.beside
  | n => n.parts

/-- So many nodes are on some way down from a node, each a part of the one before it, if a step from a term to its
operand counts for its weight. -/
inductive Descends (weight : Term → Nat) : Node → Nat → Prop
  | node (n : Node) : Descends weight n 1
  | beside {whole part : Node} {d : Nat} (hpart : part ∈ whole.beside) (h : Descends weight part d) :
    Descends weight whole (d + 1)
  | operand {t operand : Term} {d : Nat} (hoperand : t.operand? = some operand)
    (h : Descends weight (.term operand) d) : Descends weight (.term t) (d + weight t)

/-- No way down from the node has more nodes, not counting steps to operands. -/
def Shallow (k : Nat) (n : Node) : Prop := ∀ d, Descends (fun _ => 0) n d → d ≤ k

variable {k l : Nat} {n : Node}

theorem Shallow.mono (h : n.Shallow k) (hle : k ≤ l) : n.Shallow l := fun d hd => (h d hd).trans hle

theorem shallow_succ : n.Shallow (k + 1) ↔
    (∀ part ∈ n.beside, part.Shallow k) ∧ ∀ t, n.operand? = some t → (Node.term t).Shallow (k + 1) := by
  constructor
  · refine fun h => ⟨fun part hpart d hd => Nat.le_of_succ_le_succ (h _ (.beside hpart hd)), fun t ht d hd => ?_⟩
    cases n with
    | term whole => exact h d (.operand ht hd)
    | _ => cases ht
  · rintro ⟨hbeside, hoperand⟩ d hd
    cases hd with
    | node => exact Nat.succ_pos k
    | beside hpart hd => exact Nat.succ_le_succ (hbeside _ hpart _ hd)
    | operand ht hd => exact hoperand _ ht _ hd

/-- A node without an operand. -/
theorem shallow_of_beside (hoperand : n.operand? = none) (h : ∀ part ∈ n.beside, part.Shallow k) :
    n.Shallow (k + 1) := shallow_succ.2 ⟨h, fun _ ht => nomatch hoperand.symm.trans ht⟩

end Node

/-- The term is no deeper than that. -/
abbrev Term.Shallow (k : Nat) (t : Term) : Prop := (Node.term t).Shallow k

/-- The body is no deeper than that. -/
abbrev Body.Shallow (k : Nat) (b : Body) : Prop := (Node.body b).Shallow k

/-! ## What parsers yield -/

namespace Parser

/-- Whatever the parser answers, this holds of it. -/
def Yields {α : Type} (p : Parser α) (holds : α → Prop) : Prop := ∀ c a, (p c).1 = .done a → holds a

section

variable {α β σ : Type} {p q : Parser α} {holds : α → Prop}

theorem yields_pure {a : α} (h : holds a) : Yields (pure a) holds := fun _ _ ha => Outcome.done.inj ha ▸ h

theorem Yields.mono {holds' : α → Prop} (h : Yields p holds) (himp : ∀ a, holds a → holds' a) : Yields p holds' :=
  fun c a ha => himp a (h c a ha)

theorem Yields.bind {f : α → Parser β} {holds' : β → Prop} (hp : Yields p holds)
    (hf : ∀ a, holds a → Yields (f a) holds') : Yields (p >>= f) holds' := by
  intro c b hb
  obtain ⟨a, ha, hrun⟩ := exists_of_bind hb
  rw [hrun] at hb
  exact hf a (hp c a ha) _ b hb

/-- Nothing need hold of what the first part answers. -/
theorem Yields.after {f : α → Parser β} {holds : β → Prop} (hf : ∀ a, Yields (f a) holds) :
    Yields (p >>= f) holds := by
  have hp : Yields p fun _ => True := fun _ _ _ => trivial
  exact hp.bind fun a _ => hf a

theorem Yields.ite {condition : Prop} [Decidable condition] (hp : Yields p holds) (hq : Yields q holds) :
    Yields (if condition then p else q) holds := by
  split
  · exact hp
  · exact hq

theorem yields_fail (e : SyntaxError) : Yields (fail e : Parser α) holds := fun _ _ => nofun

theorem yields_stuck : Yields (stuck : Parser α) holds := fun _ _ => nofun

theorem yields_unexpected (expected : String) : Yields (unexpected expected : Parser α) holds :=
  .after fun _ => .ite (yields_fail _) (yields_fail _)

theorem Yields.withNewlines (h : Yields p holds) (significant : Bool) : Yields (withNewlines significant p) holds :=
  fun _ a ha => h _ a ha

theorem Yields.withUnion (h : Yields p holds) (allowed : Bool) : Yields (withUnion allowed p) holds :=
  fun _ a ha => h _ a ha

theorem Yields.nested (h : Yields p holds) : Yields (nested p) holds := by
  intro c a ha
  rw [Parser.nested] at ha
  split at ha
  · exact (Yields.after fun _ => yields_fail _ : Yields tooDeep holds) c a ha
  · exact h _ a ha

theorem Yields.fold {step : σ → Parser (Option σ)} {holds : σ → Prop}
    (h : ∀ s, holds s → Yields (step s) fun s' => ∀ a, s' = some a → holds a) {s : σ} (hs : holds s) :
    Yields (fold step s) holds := by
  have hrounds : ∀ rounds s, holds s → Yields (foldUpTo step rounds s) holds := by
    intro rounds
    induction rounds with
    | zero => exact fun s _ => yields_stuck
    | succ rounds ih =>
      refine fun s hs => (h s hs).bind fun s' hs' => ?_
      cases s' with
      | none => exact yields_pure hs
      | some s' => exact ih s' (hs' s' rfl)
  exact fun c => hrounds c.ahead.length s hs c

theorem Yields.many {step : Parser (Option α)} (h : Yields step fun a => ∀ x, a = some x → holds x) :
    Yields (many step) fun as => ∀ a ∈ as, holds a := by
  have hgather : ∀ found : List α, (∀ a ∈ found, holds a) →
      Yields (gather step found) fun as => ∀ all, as = some all → ∀ a ∈ all, holds a := by
    refine fun found hfound => h.bind fun a ha => yields_pure ?_
    rintro all hall x hx
    cases a with
    | none => cases hall
    | some a =>
      obtain rfl : a :: found = all := Option.some.inj hall
      rcases List.mem_cons.1 hx with rfl | hx
      · exact ha x rfl
      · exact hfound x hx
  have hfold : Yields (Parser.fold (gather step) []) fun as => ∀ a ∈ as, holds a := .fold hgather nofun
  exact hfold.bind fun found hfound => yields_pure fun a ha => hfound a (List.mem_reverse.1 ha)

theorem yields_some {a : α} (h : holds a) : Yields (pure (some a)) fun o => ∀ x, o = some x → holds x :=
  yields_pure fun _ hx => Option.some.inj hx ▸ h

theorem yields_none : Yields (pure none : Parser (Option α)) fun o => ∀ x, o = some x → holds x := yields_pure nofun

end

end Parser

/-! ## One level of nesting -/

/-- What stands one level further in is no deeper than that. -/
structure Inner.Shallow (k : Nat) (inner : Inner) : Prop where
  term : Yields inner.term (Term.Shallow k)
  body : Yields inner.body (Body.Shallow k)

section

variable {k : Nat} {inner : Inner}

/-- Each right operand is joined more tightly than what it stands in, so right operands are at most as deep in
each other as there are precedences left. -/
theorem yields_binaryUpTo {term : Parser Term} (h : Yields term (Term.Shallow k)) (levels least : Nat) :
    Yields (binaryUpTo term (levels + 1) least) (Term.Shallow (k + levels)) := by
  induction levels generalizing least with
  | zero =>
    refine h.bind fun first hfirst => Yields.fold (fun left _ => ?_) hfirst
    refine .after fun op => ?_
    cases op with
    | none => exact yields_none
    | some op =>
      refine .ite yields_none (.after fun _ => ?_)
      have hstuck : Yields (stuck : Parser Term) fun _ => False := yields_stuck
      exact hstuck.bind fun _ => False.elim
  | succ levels ih =>
    refine h.bind fun first hfirst => Yields.fold (fun left hleft => ?_) (hfirst.mono (Nat.le_add_right k _))
    refine .after fun op => ?_
    cases op with
    | none => exact yields_none
    | some op =>
      refine .ite yields_none (.after fun _ => (ih _).bind fun rhs hrhs => yields_some ?_)
      refine Node.shallow_succ.2 ⟨fun part hpart => ?_, fun t ht => ?_⟩
      · obtain rfl : part = .term rhs := List.mem_singleton.1 hpart
        exact hrhs
      · obtain rfl : left = t := Option.some.inj ht
        exact hleft

theorem yields_binary (h : inner.Shallow k) (least : Nat) : Yields (binary inner least) (Term.Shallow (k + 7)) :=
  yields_binaryUpTo h.term 7 least

/-! ### Lists -/

theorem yields_afterComma {α : Type} {close : Symbol} {item : Parser α} {holds : α → Prop} (h : Yields item holds) :
    Yields (afterComma close item) fun a => ∀ x, a = some x → holds x := by
  refine .after fun comma => .ite ?_ yields_none
  exact .after fun closed => .ite yields_none (h.bind fun _ ha => yields_some ha)

theorem yields_arguments (h : inner.Shallow k) :
    Yields (arguments inner) fun args => ∀ t ∈ args, Term.Shallow (k + 7) t := by
  refine Yields.withNewlines (Yields.withUnion (.after fun closed => .ite ?_ ?_) true) false
  · exact .after fun _ => yields_pure nofun
  · refine (yields_binary h 0).bind fun first hfirst => ?_
    refine (yields_afterComma (yields_binary h 0)).many.bind fun rest hrest => .after fun _ => yields_pure ?_
    exact List.forall_mem_cons.2 ⟨hfirst, hrest⟩

/-! ### Bodies -/

/-- The parts of a goal are no deeper than that. -/
def Goal.Shallow (k : Nat) (g : Goal) : Prop := ∀ part ∈ g.parts, part.Shallow k

theorem yields_declaration (h : inner.Shallow k) : Yields (declaration inner) (Goal.Shallow (k + 7)) := by
  have hmore : Yields (afterCommaOperand inner) fun a => ∀ t, a = some t → Term.Shallow (k + 7) t :=
    .after fun comma => .ite ((yields_binary h 2).bind fun t ht => yields_some ht) yields_none
  refine (yields_binary h 2).bind fun first hfirst => hmore.many.bind fun rest hrest => ?_
  refine .after fun more => .ite ((yields_binary h 2).bind fun collection hcollection => ?_) ?_
  · rcases rest with _ | ⟨second, _ | _⟩
    · exact yields_pure (List.forall_mem_cons.2 ⟨hfirst, List.forall_mem_singleton.2 hcollection⟩)
    · exact yields_pure (List.forall_mem_cons.2 ⟨hfirst, List.forall_mem_cons.2
        ⟨hrest second List.mem_cons_self, List.forall_mem_singleton.2 hcollection⟩⟩)
    · exact yields_unexpected _
  · cases asVars? (first :: rest) with
    | some names => exact yields_pure nofun
    | none => exact yields_unexpected _

theorem yields_quantification (h : inner.Shallow k) : Yields (quantification inner) (Goal.Shallow (k + 7)) := by
  have hdeeper : ∀ {n : Node}, n.Shallow k → n.Shallow (k + 7) := fun hn => hn.mono (Nat.le_add_right k 7)
  have hvars : Yields (iteration inner) fun vars =>
      (∀ t, vars.1 = some t → Term.Shallow k t) ∧ Term.Shallow k vars.2 := by
    refine h.term.bind fun first hfirst => .after fun comma => .ite ?_ (yields_pure ⟨nofun, hfirst⟩)
    exact h.term.bind fun second hsecond => yields_pure ⟨fun t ht => Option.some.inj ht ▸ hfirst, hsecond⟩
  refine hvars.bind fun ⟨key, item⟩ ⟨hkey, hitem⟩ => .after fun _ => ?_
  refine (yields_binary h 2).bind fun domain hdomain => h.body.bind fun body hbody => yields_pure ?_
  refine List.forall_mem_append.2 ⟨?_, List.forall_mem_cons.2 ⟨hdeeper hitem, List.forall_mem_cons.2
    ⟨hdomain, List.forall_mem_singleton.2 (hdeeper hbody)⟩⟩⟩
  cases key with
  | none => exact nofun
  | some t => exact List.forall_mem_singleton.2 (hdeeper (hkey t rfl))

/-- The terms of pairs are no deeper than that. -/
theorem forall_mem_pairParts {pairs : List (Term × Term)}
    (h : ∀ p ∈ pairs, Term.Shallow k p.1 ∧ Term.Shallow k p.2) : ∀ part ∈ pairParts pairs, part.Shallow k := by
  intro part hpart
  obtain ⟨p, hp, hpart⟩ := List.mem_flatMap.1 hpart
  rcases List.mem_cons.1 hpart with rfl | hpart
  · exact (h p hp).1
  · exact List.mem_singleton.1 hpart ▸ (h p hp).2

theorem yields_replacement (h : inner.Shallow k) : Yields (replacement inner) fun a => ∀ p, a = some p →
    Term.Shallow (k + 7) p.1 ∧ Term.Shallow (k + 7) p.2 := by
  refine .after fun found => .ite ((yields_binary h 1).bind fun target htarget => .after fun _ => ?_) yields_none
  exact (yields_binary h 1).bind fun replaced hreplaced => yields_some ⟨htarget, hreplaced⟩

theorem yields_literal (h : inner.Shallow k) : Yields (literal inner) fun e => (Node.expr e).Shallow (k + 8) := by
  have hexpr : ∀ {goal : Goal} {replacing : List (Term × Term)} (negated : Bool) (location : Location),
      goal.Shallow (k + 7) → (∀ p ∈ replacing, Term.Shallow (k + 7) p.1 ∧ Term.Shallow (k + 7) p.2) →
        (Node.expr (.mk goal negated replacing location)).Shallow (k + 8) := fun negated location hgoal hreplacing =>
    Node.shallow_of_beside rfl (List.forall_mem_append.2 ⟨hgoal, forall_mem_pairParts hreplacing⟩)
  refine .after fun location => .after fun found => .ite ?_ (.after fun found => .ite ?_ (.after fun negated => ?_))
  · exact (yields_declaration h).bind fun goal hgoal => yields_pure (hexpr false location hgoal nofun)
  · exact (yields_quantification h).bind fun goal hgoal => yields_pure (hexpr false location hgoal nofun)
  · refine (yields_binary h 0).bind fun term hterm => (yields_replacement h).many.bind fun replacing hreplacing => ?_
    exact yields_pure (hexpr negated location (List.forall_mem_singleton.2 hterm) hreplacing)

theorem shallow_body {b : Body} (h : ∀ e ∈ b, (Node.expr e).Shallow k) : b.Shallow (k + 1) :=
  Node.shallow_of_beside rfl (List.forall_mem_map.2 h)

theorem yields_query (h : inner.Shallow k) (close : Symbol) : Yields (query inner close) (Body.Shallow (k + 9)) := by
  have hstep : Yields (bodyStep inner close) fun a => ∀ e, a = some e → (Node.expr e).Shallow (k + 8) := by
    refine .after fun _ => .after fun closed => .ite yields_none ((yields_literal h).bind fun e he => ?_)
    exact .after fun next => .ite (yields_some he) (yields_unexpected _)
  exact (hstep.many.mono fun b hb => shallow_body hb).withNewlines true

theorem yields_block (h : inner.Shallow k) : Yields (block inner) (Body.Shallow (k + 9)) :=
  .after fun _ => (yields_query h .rbrace).bind fun _ hbody => .after fun _ => yields_pure hbody

/-! ### Terms -/

/-- A term that holds nothing is a single node. -/
theorem Term.shallow_leaf {t : Term} (hparts : t.parts = []) : t.Shallow (k + 1) := by
  have hbeside : t.operand? = none ∧ t.beside = [] := by
    rw [t.parts_eq] at hparts
    exact ⟨by simpa using (List.append_eq_nil_iff.1 hparts).1, (List.append_eq_nil_iff.1 hparts).2⟩
  exact Node.shallow_of_beside hbeside.1 fun part hpart => by
    rw [show (Node.term t).beside = [] from hbeside.2] at hpart
    cases hpart

/-- A path around a term counts for what stands in it. -/
theorem Term.Shallow.access {t : Term} {a : Access} (h : t.Shallow (k + 1)) (ha : ∀ part ∈ a.parts, part.Shallow k) :
    (t.access a).Shallow (k + 1) := by
  have hnew : ∀ t : Term, t.Shallow (k + 1) → (Term.ref t [a]).Shallow (k + 1) := by
    refine fun t h => Node.shallow_succ.2 ⟨fun part hpart => ?_, fun u hu => Option.some.inj hu ▸ h⟩
    exact ha part (by simpa [Node.beside, Term.beside] using hpart)
  cases t with
  | ref head path =>
    obtain ⟨hpath, hhead⟩ := Node.shallow_succ.1 h
    refine Node.shallow_succ.2 ⟨fun part hpart => ?_, hhead⟩
    rw [show (Node.term (Term.access (.ref head path) a)).beside = (path ++ [a]).flatMap Access.parts from rfl,
      List.flatMap_append] at hpart
    rcases List.mem_append.1 hpart with hpart | hpart
    · exact hpath part hpart
    · exact ha part (by simpa using hpart)
  | _ => exact hnew _ h

theorem yields_accessed (h : inner.Shallow k) {t : Term} (ht : t.Shallow (k + 10)) :
    Yields (accessed inner t) (Term.Shallow (k + 10)) := by
  have hdeeper : ∀ {n : Node}, n.Shallow (k + 7) → n.Shallow (k + 9) := fun hn => hn.mono (by omega)
  refine Yields.fold (fun t ht => .after fun dot => .ite ?_ (.after fun bracket => .ite ?_ ?_)) ht
  · exact .after fun field => yields_some (ht.access (a := .dot field) nofun)
  · refine (((yields_binary h 0).withUnion true).withNewlines false).bind fun index hindex => .after fun _ => ?_
    exact yields_some (ht.access (a := .index index) (List.forall_mem_singleton.2 (hdeeper hindex)))
  · refine .after fun paren => .ite ((yields_arguments h).bind fun args hargs => yields_some ?_) yields_none
    refine Node.shallow_succ.2 ⟨List.forall_mem_map.2 fun arg harg => hdeeper (hargs arg harg), fun u hu => ?_⟩
    exact Option.some.inj hu ▸ ht

theorem yields_element (h : inner.Shallow k) : Yields (element inner) (Term.Shallow (k + 7)) :=
  (yields_binary h 1).withUnion false

theorem yields_pair (h : inner.Shallow k) :
    Yields (pair inner) fun p => Term.Shallow (k + 7) p.1 ∧ Term.Shallow (k + 7) p.2 :=
  (yields_element h).bind fun _ hkey => .after fun _ => (yields_element h).bind fun _ hitem =>
    yields_pure ⟨hkey, hitem⟩

/-- A comprehension is one node around its terms and its body. -/
theorem yields_comprehended (h : inner.Shallow k) (close : Symbol) {make : Body → Term} {terms : List Term}
    (hterms : ∀ t ∈ terms, Term.Shallow (k + 7) t) (hoperand : ∀ b, (make b).operand? = none)
    (hbeside : ∀ b, (make b).beside = terms.map .term ++ [.body b]) : Yields (do
      let body ← query inner close
      expectSymbol close
      return make body) (Term.Shallow (k + 10)) := by
  refine (yields_query h close).bind fun body hbody => .after fun _ => yields_pure ?_
  refine Node.shallow_of_beside (hoperand body) ?_
  rw [show (Node.term (make body)).beside = terms.map .term ++ [.body body] from hbeside body]
  refine List.forall_mem_append.2 ⟨List.forall_mem_map.2 fun t ht => ?_, List.forall_mem_singleton.2 hbody⟩
  exact (hterms t ht).mono (by omega)

/-- A collection is one node around its items. -/
theorem shallow_collection {t : Term} {items : List Node} (hoperand : t.operand? = none) (hbeside : t.beside = items)
    (h : ∀ item ∈ items, item.Shallow (k + 7)) : t.Shallow (k + 10) := by
  refine Node.shallow_of_beside hoperand fun part hpart => ?_
  rw [show (Node.term t).beside = items from hbeside] at hpart
  exact (h part hpart).mono (by omega)

theorem yields_bracketed (h : inner.Shallow k) : Yields (bracketed inner) (Term.Shallow (k + 10)) := by
  refine .after fun closed => .ite (yields_pure (Term.shallow_leaf rfl)) ?_
  refine (yields_element h).bind fun first hfirst => ?_
  refine .after fun bar => .ite ?_ ?_
  · exact yields_comprehended h .rbracket (List.forall_mem_singleton.2 hfirst) (fun _ => rfl) fun _ => rfl
  · refine (yields_afterComma (yields_element h)).many.bind fun rest hrest => .after fun _ => yields_pure ?_
    exact shallow_collection rfl rfl (List.forall_mem_map.2 (List.forall_mem_cons.2 ⟨hfirst, hrest⟩))

theorem yields_braced (h : inner.Shallow k) : Yields (braced inner) (Term.Shallow (k + 10)) := by
  refine .after fun closed => .ite (yields_pure (Term.shallow_leaf rfl)) ?_
  refine (yields_element h).bind fun first hfirst => ?_
  refine .after fun colon => .ite ((yields_element h).bind fun item hitem => .after fun bar => .ite ?_ ?_) ?_
  · exact yields_comprehended h .rbrace (List.forall_mem_cons.2 ⟨hfirst, List.forall_mem_singleton.2 hitem⟩)
      (fun _ => rfl) fun _ => rfl
  · refine (yields_afterComma (yields_pair h)).many.bind fun rest hrest => .after fun _ => yields_pure ?_
    exact shallow_collection rfl rfl (forall_mem_pairParts (List.forall_mem_cons.2 ⟨⟨hfirst, hitem⟩, hrest⟩))
  · refine .after fun bar => .ite ?_ ?_
    · exact yields_comprehended h .rbrace (List.forall_mem_singleton.2 hfirst) (fun _ => rfl) fun _ => rfl
    · refine (yields_afterComma (yields_element h)).many.bind fun rest hrest => .after fun _ => yields_pure ?_
      exact shallow_collection rfl rfl (List.forall_mem_map.2 (List.forall_mem_cons.2 ⟨hfirst, hrest⟩))

theorem yields_named (h : inner.Shallow k) (name : String) : Yields (named inner name) (Term.Shallow (k + 10)) := by
  have hleaf : ∀ {t : Term}, t.parts = [] → t.Shallow (k + 10) := Term.shallow_leaf
  refine .ite (yields_pure (hleaf rfl)) (.ite (yields_pure (hleaf rfl)) (.ite (yields_pure (hleaf rfl)) ?_))
  exact yields_accessed h (hleaf rfl)

theorem yields_primary (h : inner.Shallow k) : Yields (primary inner) (Term.Shallow (k + 10)) := by
  have hleaf : ∀ {t : Term}, t.parts = [] → t.Shallow (k + 10) := Term.shallow_leaf
  refine .after fun ⟨kind, location, spaced⟩ => ?_
  cases kind with
  | name name => exact .ite (.after fun _ => yields_named h name) (yields_unexpected _)
  | string value => exact .after fun _ => yields_pure (hleaf rfl)
  | number text => exact .after fun _ => yields_pure (hleaf rfl)
  | symbol s =>
    cases s with
    | minus =>
      refine .after fun _ => h.term.bind fun term hterm => yields_pure ?_
      exact Node.shallow_of_beside rfl (List.forall_mem_singleton.2 (hterm.mono (by omega)))
    | lparen =>
      refine .after fun _ => (((yields_binary h 0).withUnion true).withNewlines false).bind fun term hterm => ?_
      exact .after fun _ => yields_accessed h (hterm.mono (by omega))
    | lbracket =>
      refine .after fun _ => ((yields_bracketed h).withNewlines false).bind fun term hterm => ?_
      exact yields_accessed h hterm
    | lbrace => exact .after fun _ => (yields_braced h).withNewlines false
    | _ => exact yields_unexpected _
  | _ => exact yields_unexpected _

end

/-! ## All levels -/

/-- **Each level counts for ten nodes.** -/
theorem shallow_inner (n : Nat) : (inner n).Shallow (10 * n) := by
  induction n with
  | zero => exact ⟨yields_stuck.nested, yields_stuck.nested⟩
  | succ n ih =>
    rw [Nat.mul_succ]
    exact ⟨(yields_primary ih).nested, ((yields_block ih).mono fun b hb => hb.mono (by omega)).nested⟩

theorem shallow_outermost : outermost.Shallow (10 * maxNesting) := shallow_inner maxNesting

/-! ## Rules -/

/-- What stands in a rule. -/
abbrev Inside (n : Node) : Prop := n.Shallow (10 * maxNesting + 9)

theorem yields_outermost (least : Nat) : Yields (binary outermost least) fun t => Inside (.term t) :=
  (yields_binary shallow_outermost least).mono fun t ht => ht.mono (by decide)

theorem yields_outermostBody : Yields outermost.body fun b => Inside (.body b) :=
  shallow_outermost.body.mono fun b hb => hb.mono (by decide)

theorem yields_signature : Yields signature fun s => (∀ t ∈ s.2.1, Inside (.term t)) ∧
    ∀ t, s.2.2 = some t → Inside (.term t) := by
  refine .after fun paren => .ite ?_ (.after fun bracket => .ite ?_ (.after fun word => .ite ?_ ?_))
  · refine (yields_arguments shallow_outermost).bind fun args hargs => yields_pure ⟨fun t ht => ?_, nofun⟩
    exact (hargs t ht).mono (by decide)
  · refine ((yields_outermost 0).withNewlines false).bind fun key hkey => .after fun _ => yields_pure ?_
    exact ⟨nofun, fun t ht => Option.some.inj ht ▸ hkey⟩
  · exact (yields_outermost 1).bind fun key hkey => yields_pure ⟨nofun, fun t ht => Option.some.inj ht ▸ hkey⟩
  · exact yields_pure ⟨nofun, nofun⟩

theorem yields_valueClause : Yields valueClause fun a => ∀ clause, a = some clause → Inside (.term clause.2) := by
  refine .after fun assign => .ite ?_ (.after fun unify => .ite ?_ yields_none)
  · exact (yields_outermost 1).bind fun item hitem => yields_some hitem
  · exact (yields_outermost 1).bind fun item hitem => yields_some hitem

/-- The arguments, the key and the value of a head. -/
def Head.parts (h : Head) : List Node := h.args.map .term ++ optionParts h.key ++ optionParts h.value

theorem forall_mem_optionParts {t : Option Term} (h : ∀ u, t = some u → Inside (.term u)) :
    ∀ part ∈ optionParts t, Inside part := by
  cases t with
  | none => exact nofun
  | some t => exact List.forall_mem_singleton.2 (h t rfl)

theorem yields_head : Yields head fun h => ∀ part ∈ h.parts, Inside part := by
  refine .after fun name => yields_signature.bind fun ⟨kind, args, key⟩ ⟨hargs, hkey⟩ => ?_
  have hsignature : ∀ part ∈ args.map Node.term ++ optionParts key, Inside part :=
    List.forall_mem_append.2 ⟨List.forall_mem_map.2 hargs, forall_mem_optionParts hkey⟩
  refine yields_valueClause.bind fun clause hclause => ?_
  cases clause with
  | some clause =>
    exact yields_pure (List.forall_mem_append.2 ⟨hsignature, List.forall_mem_singleton.2 (hclause clause rfl)⟩)
  | none => exact yields_pure (List.forall_mem_append.2 ⟨hsignature, nofun⟩)

theorem yields_ifBody : Yields ifBody fun b => Inside (.body b) := by
  refine .after fun braced => .ite yields_outermostBody ((yields_literal shallow_outermost).bind fun e he => ?_)
  exact yields_pure (shallow_body (List.forall_mem_singleton.2 he))

theorem yields_anotherBlock : Yields anotherBlock fun a => ∀ b, a = some b → Inside (.body b) :=
  .after fun _ => .ite (yields_outermostBody.bind fun _ hb => yields_some hb) yields_none

theorem yields_bodies : Yields bodies fun bs => ∀ b ∈ bs, Inside (.body b) := by
  refine .after fun word => .ite (yields_ifBody.bind fun first hfirst => ?_) yields_anotherBlock.many
  exact yields_anotherBlock.many.bind fun rest hrest => yields_pure (List.forall_mem_cons.2 ⟨hfirst, hrest⟩)

theorem yields_alternative : Yields alternative fun a => ∀ o, a = some o → ∀ part ∈ o.parts, Inside part := by
  have hmade : ∀ {clause : Option (Bool × Term)} {body : Body} (location : Location),
      (∀ c, clause = some c → Inside (.term c.2)) → Inside (.body body) →
        ∀ part ∈ (Otherwise.mk (clause.map Prod.snd) body location).parts, Inside part := by
    intro clause body location hclause hbody
    refine List.forall_mem_append.2 ⟨forall_mem_optionParts fun t ht => ?_, List.forall_mem_singleton.2 hbody⟩
    obtain ⟨c, hc, rfl⟩ := Option.map_eq_some_iff.1 ht
    exact hclause c hc
  refine .after fun location => .after fun word => .ite (yields_valueClause.bind fun clause hclause => ?_) yields_none
  refine .after fun found => .ite (yields_ifBody.bind fun body hbody => yields_some (hmade location hclause hbody)) ?_
  refine .after fun braced => .ite ?_ (yields_some (hmade location hclause (shallow_body nofun)))
  exact yields_outermostBody.bind fun body hbody => yields_some (hmade location hclause hbody)

theorem yields_rule : Yields rule fun r => (Node.rule r).Shallow (10 * maxNesting + 10) := by
  refine .after fun location => .after fun isDefault => yields_head.bind fun head hhead => ?_
  have hrest : ∀ bs : List Body, (∀ b ∈ bs, Inside (.body b)) →
      Yields (do return (⟨isDefault, head, bs, ← many alternative, location⟩ : Rule)) fun r =>
        (Node.rule r).Shallow (10 * maxNesting + 10) := by
    refine fun bs hbs => yields_alternative.many.bind fun otherwise hotherwise => yields_pure ?_
    refine Node.shallow_of_beside rfl (List.forall_mem_append.2 ⟨List.forall_mem_append.2 ⟨hhead, ?_⟩, ?_⟩)
    · exact List.forall_mem_map.2 hbs
    · intro part hpart
      obtain ⟨o, ho, hpart⟩ := List.mem_flatMap.1 hpart
      exact hotherwise o ho part hpart
  exact .ite (hrest [] nofun) (yields_bodies.bind hrest)

theorem yields_module : Yields module fun m => ∀ r ∈ m.rules, (Node.rule r).Shallow (10 * maxNesting + 10) := by
  have hrule : Yields rule? fun a => ∀ r, a = some r → (Node.rule r).Shallow (10 * maxNesting + 10) :=
    .after fun _ => .after fun _ => .after fun ended => .ite yields_none (yields_rule.bind fun r hr => yields_some hr)
  refine .after fun _ => .after fun found => .ite (.after fun package => .after fun imports => ?_) (yields_fail _)
  exact hrule.many.bind fun rules hrules => yields_pure hrules

/-! ## Operands -/

/-- How many nodes are on the way down from a term along operands. -/
def Term.spine (weight : Term → Nat) : Term → Nat
  | .binary op lhs rhs => lhs.spine weight + weight (.binary op lhs rhs)
  | .call func args => func.spine weight + weight (.call func args)
  | .ref head path => head.spine weight + weight (.ref head path)
  | _ => 1

theorem Term.descends_spine (weight : Term → Nat) : ∀ t : Term, (Node.term t).Descends weight (t.spine weight)
  | .binary _ lhs _ => .operand rfl (lhs.descends_spine weight)
  | .call func _ => .operand rfl (func.descends_spine weight)
  | .ref head _ => .operand rfl (head.descends_spine weight)
  | .null | .bool _ | .number _ | .string _ | .var _ | .array _ | .set _ | .object _ | .arrayCompr .. | .setCompr ..
  | .objectCompr .. | .neg _ => .node _

/-- An expression of a rule is a term with so many nodes along its operands. -/
def Module.hasSpine (weight : Term → Nat) (least : Nat) (m : Module) : Bool :=
  m.rules.any fun r => r.bodies.any fun b => b.any fun e =>
    match e.goal with
    | .term t => least ≤ t.spine weight
    | _ => false

/-- The body and the expression are above the term. -/
theorem Module.exists_descends {weight : Term → Nat} {least : Nat} {m : Module}
    (h : m.hasSpine weight least = true) :
    ∃ r ∈ m.rules, ∃ part ∈ r.parts, ∃ d, least + 2 ≤ d ∧ part.Descends weight d := by
  obtain ⟨r, hr, h⟩ := List.any_eq_true.1 h
  obtain ⟨b, hb, h⟩ := List.any_eq_true.1 h
  obtain ⟨⟨goal, negated, replacing, location⟩, he, h⟩ := List.any_eq_true.1 h
  have hbody : Node.body b ∈ r.parts := List.mem_append_left _ (List.mem_append_right _ (List.mem_map_of_mem hb))
  cases goal with
  | term t =>
    refine ⟨r, hr, _, hbody, _, Nat.add_le_add_right (of_decide_eq_true h) 2, .beside (List.mem_map_of_mem he) ?_⟩
    exact .beside List.mem_cons_self (t.descends_spine weight)
  | _ => cases h

/-! ## Sources -/

/-- **The levels bound the depth.**  In what is read of a source, no way down from a term or a body of a rule has more
than 20 nodes for each level of nesting, not counting the steps from an operator, a call or a path to its operand. -/
theorem descends_le {source : String} {m : Module} (h : Module.ofSource? source = .ok m) :
    ∀ r ∈ m.rules, ∀ part ∈ r.parts, ∀ d, part.Descends (fun _ => 0) d → d ≤ 20 * maxNesting := by
  cases htokens : tokenize source with
  | error e => exact nomatch (ofSource?_of_error htokens).symm.trans h
  | ok tokens =>
    rw [ofSource?_of_ok htokens] at h
    have hdone : (module (.start tokens)).1 = .done m := by
      revert h
      show (module (.start tokens)).1.toExcept = .ok m → _
      generalize (module (.start tokens)).1 = outcome
      cases outcome with
      | done a => exact fun h => congrArg Outcome.done (Except.ok.inj h)
      | failed e => exact nofun
      | stuck => exact nofun
    intro r hr part hpart d hd
    exact ((Node.shallow_succ.1 (yields_module _ m hdone r hr)).1 part hpart d hd).trans (by decide)

/-- What is read of a text has a rule with a way down of so many nodes. -/
theorem exists_descends_of_hasSpine {source : String} {text : List Char} (htext : source.toList = text)
    {weight : Term → Nat} {least : Nat} (h : (do
      let tokens ← scan .start true text
      (Module.parse tokens).1.toExcept).toOption.any (Module.hasSpine weight least) = true) :
    ∃ m, Module.ofSource? source = .ok m ∧
      ∃ r ∈ m.rules, ∃ part ∈ r.parts, ∃ d, least + 2 ≤ d ∧ part.Descends weight d := by
  rw [← htext] at h
  change (Module.ofSource? source).toOption.any _ = true at h
  cases hread : Module.ofSource? source with
  | error e =>
    rw [hread] at h
    cases h
  | ok m =>
    rw [hread] at h
    exact ⟨m, rfl, Module.exists_descends h⟩

/-- A body, its expression and the sum in it. -/
theorem descends_le_sum : ∃ m, Module.ofSource? "package p\nr \x7b x + y + z \x7d\n" = .ok m ∧
    ∃ r ∈ m.rules, ∃ part ∈ r.parts, ∃ d, 3 ≤ d ∧ part.Descends (fun _ => 0) d ∧ d ≤ 20 * maxNesting := by
  obtain ⟨m, hm, r, hr, part, hpart, d, hd, hdescends⟩ : ∃ m, Module.ofSource? "package p\nr \x7b x + y + z \x7d\n" =
      .ok m ∧ ∃ r ∈ m.rules, ∃ part ∈ r.parts, ∃ d, 1 + 2 ≤ d ∧ part.Descends (fun _ => 0) d :=
    exists_descends_of_hasSpine rfl (by decide +kernel)
  exact ⟨m, hm, r, hr, part, hpart, d, hd, hdescends, descends_le hm r hr part hpart d hdescends⟩

/-- A policy with a variable in its rule, and something behind it over and over again. -/
def repeating (link : String) (times : Nat) : List Char :=
  "package p\nr \x7b x".toList ++ ((List.replicate times link.toList).flatten ++ " \x7d\n".toList)

/-- A step to the left of an operator counts, other steps to operands do not. -/
def countsOperators : Term → Nat
  | .binary .. => 1
  | _ => 0

/-- A step to what is called or has a path behind it counts, other steps to operands do not. -/
def countsCalls : Term → Nat
  | .binary .. => 0
  | _ => 1

/-- The levels bound the depth of whatever is read of a source, if the steps to operands count for their weights. -/
def LevelsBound (weight : Term → Nat) : Prop := ∀ (source : String) (m : Module), Module.ofSource? source = .ok m →
  ∀ r ∈ m.rules, ∀ part ∈ r.parts, ∀ d, part.Descends weight d → d ≤ 20 * maxNesting

theorem not_levelsBound {weight : Term → Nat} (link : String) (h : (do
    let tokens ← scan .start true (repeating link 320)
    (Module.parse tokens).1.toExcept).toOption.any (Module.hasSpine weight 320) = true) : ¬LevelsBound weight := by
  intro hbound
  obtain ⟨m, hm, r, hr, part, hpart, d, hd, hdescends⟩ := exists_descends_of_hasSpine String.toList_ofList h
  have hle := hbound _ m hm r hr part hpart d hdescends
  rw [show 20 * maxNesting = 320 from rfl] at hle
  omega

set_option maxRecDepth 4000 in
/-- **The levels do not bound the depth along operands**, whether all steps to operands count, only those of operators
or only those of calls and paths: a sum, or a call of what was called, is as deep as its text is long. -/
theorem not_forall_descends_le :
    ¬LevelsBound (fun _ => 1) ∧ ¬LevelsBound countsOperators ∧ ¬LevelsBound countsCalls :=
  ⟨not_levelsBound "()" (by decide +kernel), not_levelsBound " + x" (by decide +kernel),
    not_levelsBound "()" (by decide +kernel)⟩

end Gatehouse.Rego
