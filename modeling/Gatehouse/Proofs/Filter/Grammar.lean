import Gatehouse.Filter.Parser

/-!
# Filters are the sentences of a grammar

```text
expr    := and ("||" and)*
and     := unary ("&&" unary)*
unary   := "!" unary | "(" expr ")" | test
test    := operand comparison operand | path | path "." function "(" string ")"
operand := path | string | number | true | false | null
path    := name ("." name)*
```

1. **The grammar** (`Derives`) says which words make up an expression and which expression it is.  Chains
   are derived from the left, so the tree of a derivation leans to the left.  It knows nothing of
   positions, of what comes next, or of how deep parentheses go.
2. **Soundness.**  What a rule of the parser takes off the head of the tokens is derived (`Takes`), and
   the others are left as they are.
3. **Completeness.**  What is derived is taken, whatever comes behind it that cannot go on with it
   (`Ends`).  The crux is `Derives.rule_append`: a chain that was derived so far is the state in which
   `chainTail` goes on with the rest.  A level of parentheses takes two tokens, so as many levels as
   there are tokens are never too few.
4. **One tree.**  The parser answers once, so no words have two derivations with different trees.
-/

namespace Gatehouse.Filter

/-! ## The grammar -/

/-- How a function is written. -/
def Function.name : Function → String
  | .startsWith => "startsWith"
  | .contains => "contains"

/-- `path := name ("." name)*` -/
inductive IsPath : List Word → List String → Prop
  | last (name : String) : IsPath [.name name] [name]
  | more (name : String) {ws : List Word} {path : List String} (h : IsPath ws path) :
    IsPath (.name name :: .dot :: ws) (name :: path)

/-- `literal := string | number | true | false | null`, and numbers are finite. -/
inductive IsLiteral : Word → Json → Prop
  | string (value : String) : IsLiteral (.string value) (.string value)
  | number {value : Double} (h : value.isFinite = true) : IsLiteral (.number value) (.number (.double value))
  | bool (value : Bool) : IsLiteral (.bool value) (.bool value)
  | null : IsLiteral .null .null

/-- `operand := path | literal` -/
inductive IsOperand : List Word → Operand → Prop
  | field {ws : List Word} {path : List String} (h : IsPath ws path) : IsOperand ws (.field path)
  | literal {w : Word} {value : Json} (h : IsLiteral w value) : IsOperand [w] (.literal value)

/-- `test := operand comparison operand | path | path "." function "(" string ")"` -/
inductive IsTest : List Word → Expr → Prop
  | compare {l r : List Word} {x y : Operand} (hl : IsOperand l x) (op : Comparison)
    (hr : IsOperand r y) : IsTest (l ++ .comparison op :: r) (.compare x op y)
  | truthy {ws : List Word} {path : List String} (h : IsPath ws path) : IsTest ws (.truthy path)
  | call {ws : List Word} {path : List String} (h : IsPath ws path) (f : Function) (argument : String) :
    IsTest (ws ++ [.dot, .name f.name, .lparen, .string argument, .rparen]) (.call path f argument)

/-- How tightly the parts of an expression hold together. -/
inductive Level where
  | expr | and | unary
  deriving DecidableEq, Repr

/-- The words of an expression, and the expression that they are. -/
inductive Derives : Level → List Word → Expr → Prop
  /-- `expr := and` -/
  | ofAnd {ws : List Word} {e : Expr} (h : Derives .and ws e) : Derives .expr ws e
  /-- `expr := expr "||" and` -/
  | or {l r : List Word} {x y : Expr} (hl : Derives .expr l x) (hr : Derives .and r y) :
    Derives .expr (l ++ .or :: r) (.or x y)
  /-- `and := unary` -/
  | ofUnary {ws : List Word} {e : Expr} (h : Derives .unary ws e) : Derives .and ws e
  /-- `and := and "&&" unary` -/
  | and {l r : List Word} {x y : Expr} (hl : Derives .and l x) (hr : Derives .unary r y) :
    Derives .and (l ++ .and :: r) (.and x y)
  /-- `unary := "!" unary` -/
  | not {ws : List Word} {e : Expr} (h : Derives .unary ws e) : Derives .unary (.not :: ws) (.not e)
  /-- `unary := "(" expr ")"` -/
  | parens {ws : List Word} {e : Expr} (h : Derives .expr ws e) :
    Derives .unary (.lparen :: (ws ++ [.rparen])) e
  /-- `unary := test` -/
  | ofTest {ws : List Word} {e : Expr} (h : IsTest ws e) : Derives .unary ws e

theorem Function.ofName?_eq_some {name : String} {f : Function} :
    ofName? name = some f ↔ name = f.name := by
  unfold ofName?
  cases f <;> grind [Function.name]

/-! ## Soundness -/

/-- The words of some tokens. -/
def words (ts : List Token) : List Word := ts.map Token.word

@[simp] theorem words_nil : words [] = [] := rfl

@[simp] theorem words_cons (t : Token) (ts : List Token) : words (t :: ts) = t.word :: words ts := rfl

@[simp] theorem words_append (ts us : List Token) : words (ts ++ us) = words ts ++ words us :=
  List.map_append

/-- What a rule answers is derived from the tokens that it takes. -/
def Takes {α : Type} (rule : List Token → Reading α) (derives : List Word → α → Prop) : Prop :=
  ∀ ts a rest, rule ts = .ok (a, rest) → ∃ taken, ts = taken ++ rest ∧ derives (words taken) a

theorem Reading.andThen_ok {α β : Type} {r : Reading α} {f : α → List Token → Reading β}
    {p : β × List Token} : r.andThen f = .ok p ↔ ∃ a rest, r = .ok (a, rest) ∧ f a rest = .ok p := by
  constructor
  · intro h
    cases r with
    | ok q => exact ⟨q.1, q.2, rfl, h⟩
    | error e => cases h
  · rintro ⟨a, rest, rfl, h⟩
    exact h

theorem needs_ne_ok {α : Type} {expected : String} {ts : List Token} {p : α × List Token} :
    (needs expected ts : Reading α) ≠ .ok p := by
  intro h
  cases h

/-- What follows the first name of a path: names, and the start of a call if there is one. -/
def tailWords (names : List String) (function : Option Function) : List Word :=
  names.flatMap (fun name => [.dot, .name name]) ++
    match function with
    | some f => [.dot, .name f.name, .lparen]
    | none => []

theorem takes_pathTail : Takes pathTail fun ws p => ws = tailWords p.1 p.2 := by
  intro ts
  fun_induction pathTail ts with
  | case1 p name q r rest f hf =>
    intro a rest' h
    obtain ⟨rfl, rfl⟩ := Prod.mk.inj (Except.ok.inj h)
    refine ⟨[⟨.dot, p⟩, ⟨.name name, q⟩, ⟨.lparen, r⟩], rfl, ?_⟩
    simp [tailWords, Function.ofName?_eq_some.1 hf]
  | case2 => intro a rest' h; cases h
  | case3 p name q rest _ ih =>
    intro a rest' h
    obtain ⟨⟨names, function⟩, more, hmore, hok⟩ := Reading.andThen_ok.1 h
    obtain ⟨rfl, rfl⟩ := Prod.mk.inj (Except.ok.inj hok)
    obtain ⟨taken, rfl, htaken⟩ := ih _ _ hmore
    exact ⟨⟨.dot, p⟩ :: ⟨.name name, q⟩ :: taken, rfl, by simp [tailWords, htaken]⟩
  | case4 => exact fun a rest' h => absurd h needs_ne_ok
  | case5 ts =>
    intro a rest' h
    obtain ⟨rfl, rfl⟩ := Prod.mk.inj (Except.ok.inj h)
    exact ⟨[], rfl, rfl⟩

/-- A path is a name and the names behind it. -/
theorem isPath_iff {ws : List Word} {path : List String} :
    IsPath ws path ↔ ∃ name names, path = name :: names ∧ ws = .name name :: tailWords names none := by
  constructor
  · intro h
    induction h with
    | last name => exact ⟨name, [], rfl, rfl⟩
    | more name h ih =>
      obtain ⟨second, names, rfl, rfl⟩ := ih
      exact ⟨name, second :: names, rfl, rfl⟩
  · rintro ⟨name, names, rfl, rfl⟩
    induction names generalizing name with
    | nil => exact .last name
    | cons second names ih => exact .more name (ih second)

theorem isLiteral_iff {w : Word} {value : Json} :
    IsLiteral w value ↔ isInfinite w = false ∧ literal? w = some value := by
  constructor
  · intro h
    cases h with
    | number hfinite => exact ⟨by simp [isInfinite, hfinite], rfl⟩
    | _ => exact ⟨rfl, rfl⟩
  · rintro ⟨hfinite, h⟩
    cases w with
    | string s => cases h; exact .string s
    | number d => cases h; exact .number (by simpa [isInfinite] using hfinite)
    | bool b => cases h; exact .bool b
    | null => cases h; exact .null
    | _ => cases h

theorem takes_literal : Takes literal fun ws value => ∃ w, ws = [w] ∧ IsLiteral w value := by
  intro ts value rest h
  cases ts with
  | nil => exact absurd h needs_ne_ok
  | cons token ts =>
    rw [literal] at h
    split at h
    · exact absurd h needs_ne_ok
    · rename_i hfinite
      split at h
      · rename_i v hv
        obtain ⟨rfl, rfl⟩ := Prod.mk.inj (Except.ok.inj h)
        exact ⟨[token], rfl, token.word, rfl, isLiteral_iff.2 ⟨by simpa using hfinite, hv⟩⟩
      · exact absurd h needs_ne_ok

theorem takes_operand : Takes operand IsOperand := by
  intro ts x rest h
  unfold operand at h
  split at h
  · rename_i name p ts
    obtain ⟨⟨names, function⟩, more, hpath, hok⟩ := Reading.andThen_ok.1 h
    obtain ⟨taken, rfl, htaken⟩ := takes_pathTail _ _ _ hpath
    cases function with
    | some f => exact absurd hok needs_ne_ok
    | none =>
      obtain ⟨rfl, rfl⟩ := Prod.mk.inj (Except.ok.inj hok)
      exact ⟨⟨.name name, p⟩ :: taken, rfl, .field (isPath_iff.2 ⟨name, names, rfl, by simp [htaken]⟩)⟩
  · obtain ⟨value, more, hliteral, hok⟩ := Reading.andThen_ok.1 h
    obtain ⟨rfl, rfl⟩ := Prod.mk.inj (Except.ok.inj hok)
    obtain ⟨taken, rfl, w, hw, hvalue⟩ := takes_literal _ _ _ hliteral
    exact ⟨taken, rfl, hw ▸ .literal hvalue⟩

theorem takes_call {ws : List Word} {path : List String} (h : IsPath ws path) (f : Function) :
    Takes (call path f) fun rest e => IsTest (ws ++ .dot :: .name f.name :: .lparen :: rest) e := by
  intro ts e rest hcall
  unfold call at hcall
  split at hcall
  · rename_i argument p ts
    unfold close at hcall
    split at hcall
    · rename_i q ts
      obtain ⟨rfl, rfl⟩ := Prod.mk.inj (Except.ok.inj hcall)
      exact ⟨[⟨.string argument, p⟩, ⟨.rparen, q⟩], rfl, .call h f argument⟩
    · exact absurd hcall needs_ne_ok
  · exact absurd hcall needs_ne_ok

/-- A comparison is taken, or nothing is taken and the left operand stands alone. -/
theorem takes_comparison {ws : List Word} {left : Operand} (h : IsOperand ws left)
    {alone : List Token → Reading Expr} (halone : Takes alone fun rest e => IsTest (ws ++ rest) e) :
    Takes (comparison left alone) fun rest e => IsTest (ws ++ rest) e := by
  intro ts e rest hcomparison
  unfold comparison at hcomparison
  split at hcomparison
  · rename_i op p ts
    obtain ⟨right, more, hright, hok⟩ := Reading.andThen_ok.1 hcomparison
    obtain ⟨rfl, rfl⟩ := Prod.mk.inj (Except.ok.inj hok)
    obtain ⟨taken, rfl, htaken⟩ := takes_operand _ _ _ hright
    exact ⟨⟨.comparison op, p⟩ :: taken, rfl, .compare h op htaken⟩
  · exact halone _ _ _ hcomparison

theorem takes_test : Takes test IsTest := by
  intro ts e rest h
  unfold test at h
  split at h
  · rename_i name p ts
    obtain ⟨⟨names, function⟩, more, hpath, hok⟩ := Reading.andThen_ok.1 h
    obtain ⟨taken, rfl, htaken⟩ := takes_pathTail _ _ _ hpath
    have hisPath : IsPath (.name name :: tailWords names none) (name :: names) :=
      isPath_iff.2 ⟨name, names, rfl, rfl⟩
    cases function with
    | some f =>
      obtain ⟨taken', rfl, htest⟩ := takes_call hisPath f _ _ _ hok
      refine ⟨⟨.name name, p⟩ :: taken ++ taken', by simp, ?_⟩
      simpa [htaken, tailWords] using htest
    | none =>
      have halone : Takes (fun rest => .ok (.truthy (name :: names), rest)) fun rest e =>
          IsTest (.name name :: tailWords names none ++ rest) e := by
        intro ts e rest h
        obtain ⟨rfl, rfl⟩ := Prod.mk.inj (Except.ok.inj h)
        exact ⟨[], rfl, by simpa using .truthy hisPath⟩
      obtain ⟨taken', rfl, htest⟩ := takes_comparison (.field hisPath) halone _ _ _ hok
      refine ⟨⟨.name name, p⟩ :: taken ++ taken', by simp, ?_⟩
      simpa [htaken] using htest
  · obtain ⟨value, more, hliteral, hok⟩ := Reading.andThen_ok.1 h
    obtain ⟨taken, rfl, w, hw, hvalue⟩ := takes_literal _ _ _ hliteral
    obtain ⟨taken', rfl, htest⟩ :=
      takes_comparison (.literal hvalue) (fun _ _ _ h => absurd h needs_ne_ok) _ _ _ hok
    exact ⟨taken ++ taken', by simp, by simpa [hw] using htest⟩

theorem takes_unary {inner : List Token → Reading Expr} (hinner : Takes inner (Derives .expr)) :
    Takes (unary inner) (Derives .unary) := by
  intro ts
  fun_induction unary inner ts with
  | case1 p ts ih =>
    intro e rest h
    obtain ⟨x, more, hx, hok⟩ := Reading.andThen_ok.1 h
    obtain ⟨rfl, rfl⟩ := Prod.mk.inj (Except.ok.inj hok)
    obtain ⟨taken, rfl, htaken⟩ := ih _ _ hx
    exact ⟨⟨.not, p⟩ :: taken, rfl, .not htaken⟩
  | case2 p ts =>
    intro e rest h
    obtain ⟨x, more, hx, hok⟩ := Reading.andThen_ok.1 h
    obtain ⟨taken, rfl, htaken⟩ := hinner _ _ _ hx
    unfold close at hok
    split at hok
    · rename_i q more
      obtain ⟨rfl, rfl⟩ := Prod.mk.inj (Except.ok.inj hok)
      refine ⟨⟨.lparen, p⟩ :: (taken ++ [⟨.rparen, q⟩]), by simp, ?_⟩
      simpa using .parens htaken
    · exact absurd hok needs_ne_ok
  | case3 ts => exact fun e rest h => (takes_test _ _ _ h).imp fun taken h => ⟨h.1, .ofTest h.2⟩

/-- Chains of a mark, given what their items derive and what one more item makes of a chain. -/
structure Chains (mark : Word) (join : Expr → Expr → Expr) (item : List Token → Reading Expr)
    (itemDerives derives : List Word → Expr → Prop) : Prop where
  item : Takes item itemDerives
  first : ∀ {ws e}, itemDerives ws e → derives ws e
  more : ∀ {l r x y}, derives l x → itemDerives r y → derives (l ++ mark :: r) (join x y)

section Chains

variable {mark : Word} {join : Expr → Expr → Expr} {item : List Token → Reading Expr}
  {itemDerives derives : List Word → Expr → Prop}

theorem Chains.takes_chainTail (h : Chains mark join item itemDerives derives) {ws : List Word}
    {left : Expr} (hleft : derives ws left) (n : Nat) :
    Takes (chainTail mark join item n left) fun rest e => derives (ws ++ rest) e := by
  intro ts
  fun_induction chainTail mark join item n left ts generalizing ws with
  | case1 left n token ts hmark ih =>
    intro e rest hok
    obtain ⟨right, more, hitem, hrest⟩ := Reading.andThen_ok.1 hok
    obtain ⟨taken, rfl, htaken⟩ := h.item _ _ _ hitem
    obtain ⟨taken', rfl, hderives⟩ := ih _ _ (h.more hleft htaken) _ _ hrest
    exact ⟨token :: (taken ++ taken'), by simp, by simpa [hmark] using hderives⟩
  | case2 left n token ts hmark =>
    intro e rest hok
    obtain ⟨rfl, rfl⟩ := Prod.mk.inj (Except.ok.inj hok)
    exact ⟨[], rfl, by simpa using hleft⟩
  | case3 n left ts =>
    intro e rest hok
    obtain ⟨rfl, rfl⟩ := Prod.mk.inj (Except.ok.inj hok)
    exact ⟨[], rfl, by simpa using hleft⟩

theorem Chains.takes_chain (h : Chains mark join item itemDerives derives) :
    Takes (chain mark join item) derives := by
  intro ts e rest hok
  obtain ⟨first, more, hitem, hrest⟩ := Reading.andThen_ok.1 hok
  obtain ⟨taken, rfl, htaken⟩ := h.item _ _ _ hitem
  obtain ⟨taken', rfl, hderives⟩ := h.takes_chainTail (h.first htaken) _ _ _ _ hrest
  exact ⟨taken ++ taken', by simp, by simpa using hderives⟩

end Chains

theorem chains_and {inner : List Token → Reading Expr} (hinner : Takes inner (Derives .expr)) :
    Chains .and .and (unary inner) (Derives .unary) (Derives .and) :=
  ⟨takes_unary hinner, .ofUnary, .and⟩

theorem chains_or {inner : List Token → Reading Expr} (hinner : Takes inner (Derives .expr)) :
    Chains .or .or (chain .and .and (unary inner)) (Derives .and) (Derives .expr) :=
  ⟨(chains_and hinner).takes_chain, .ofAnd, .or⟩

/-- **What the parser reads is derived.** -/
theorem takes_expression (n : Nat) : Takes (expression n) (Derives .expr) := by
  induction n with
  | zero => exact fun _ _ _ h => absurd h needs_ne_ok
  | succ n ih => exact (chains_or ih).takes_chain

/-! ## Completeness -/

theorem words_eq_nil {ts : List Token} (h : words ts = []) : ts = [] := List.map_eq_nil_iff.1 h

theorem words_eq_cons {ts : List Token} {w : Word} {ws : List Word} (h : words ts = w :: ws) :
    ∃ p rest, ts = ⟨w, p⟩ :: rest ∧ words rest = ws := by
  obtain ⟨⟨_, p⟩, rest, rfl, rfl, hrest⟩ := List.map_eq_cons_iff.1 h
  exact ⟨p, rest, rfl, hrest⟩

theorem words_eq_append {ts : List Token} {l r : List Word} (h : words ts = l ++ r) :
    ∃ us vs, ts = us ++ vs ∧ words us = l ∧ words vs = r := List.map_eq_append_iff.1 h

/-- What may stand behind an expression of a level: nothing that could go on with it. -/
def Ends (level : Level) (rest : List Token) : Prop :=
  ∀ t ∈ rest.head?, t.word = .rparen ∨ t.word = .or ∨ level ≠ .expr ∧ t.word = .and

/-- An operand does not go on. -/
def Parted (rest : List Token) : Prop :=
  ∀ t ∈ rest.head?, t.word ≠ .dot ∧ t.word ≠ .lparen

theorem Ends.parted {level : Level} {rest : List Token} (h : Ends level rest) : Parted rest := by
  intro t ht
  rcases h t ht with hw | hw | ⟨-, hw⟩ <;> simp [hw]

theorem pathTail_of_parted {rest : List Token} (h : Parted rest) :
    pathTail rest = .ok (([], none), rest) := by
  unfold pathTail
  split
  · exact absurd rfl (h _ rfl).1
  · exact absurd rfl (h _ rfl).1
  · exact absurd rfl (h _ rfl).1
  · rfl

theorem pathTail_more {name : String} {p q : Nat} {ts : List Token}
    (h : ∀ t ∈ ts.head?, t.word ≠ .lparen) :
    pathTail (⟨.dot, p⟩ :: ⟨.name name, q⟩ :: ts) =
      (pathTail ts).andThen fun tail rest => .ok ((name :: tail.1, tail.2), rest) := by
  cases ts with
  | nil => rw [pathTail]; simp
  | cons t ts =>
    obtain ⟨w, r⟩ := t
    have hw : w ≠ .lparen := h _ rfl
    rw [pathTail]
    intro r' rest' heq
    simp_all

/-- Behind the name of a path comes a point, or the path ends there. -/
theorem tailWords_cases (names : List String) (function : Option Function) :
    names = [] ∧ function = none ∨ ∃ ws, tailWords names function = .dot :: ws := by
  cases names with
  | cons name names => exact .inr ⟨_, rfl⟩
  | nil =>
    cases function with
    | none => exact .inl ⟨rfl, rfl⟩
    | some f => exact .inr ⟨_, rfl⟩

/-- The rest of a path is taken if nothing behind it could go on with it. -/
theorem pathTail_append {names : List String} {function : Option Function} {taken rest : List Token}
    (htaken : words taken = tailWords names function) (hrest : function = none → Parted rest) :
    pathTail (taken ++ rest) = .ok ((names, function), rest) := by
  induction names generalizing taken with
  | nil =>
    cases function with
    | none =>
      obtain rfl := words_eq_nil htaken
      exact pathTail_of_parted (hrest rfl)
    | some f =>
      obtain ⟨p, ts, rfl, hts⟩ := words_eq_cons htaken
      obtain ⟨q, us, rfl, hus⟩ := words_eq_cons hts
      obtain ⟨r, vs, rfl, hvs⟩ := words_eq_cons hus
      obtain rfl := words_eq_nil hvs
      simp [pathTail, Function.ofName?_eq_some.2 rfl]
  | cons name names ih =>
    obtain ⟨p, ts, rfl, hts⟩ := words_eq_cons htaken
    obtain ⟨q, us, rfl, hus⟩ := words_eq_cons hts
    have hus : words us = tailWords names function := hus
    have hnext : ∀ t ∈ (us ++ rest).head?, t.word ≠ .lparen := by
      obtain ⟨rfl, rfl⟩ | ⟨ws, hws⟩ := tailWords_cases names function
      · obtain rfl := words_eq_nil hus
        exact fun t ht => (hrest rfl t ht).2
      · obtain ⟨r, vs, rfl, -⟩ := words_eq_cons (hus.trans hws)
        rintro t ⟨⟩
        simp
    rw [List.cons_append, List.cons_append, pathTail_more hnext, ih hus]
    rfl

theorem literal_cons {w : Word} {value : Json} (h : IsLiteral w value) (p : Nat) (rest : List Token) :
    literal (⟨w, p⟩ :: rest) = .ok (value, rest) := by
  obtain ⟨hfinite, hvalue⟩ := isLiteral_iff.1 h
  simp [literal, hfinite, hvalue]

/-- A left operand that is a literal is read as one. -/
theorem test_cons {w : Word} {value : Json} (h : IsLiteral w value) (p : Nat) (rest : List Token) :
    test (⟨w, p⟩ :: rest) = comparison (.literal value) (needs "comparison operator") rest := by
  have hliteral : test (⟨w, p⟩ :: rest) = (literal (⟨w, p⟩ :: rest)).andThen fun value rest =>
      comparison (.literal value) (needs "comparison operator") rest := by
    cases h <;> rfl
  rw [hliteral, literal_cons h]
  rfl

/-- And so is a right one. -/
theorem operand_cons {w : Word} {value : Json} (h : IsLiteral w value) (p : Nat) (rest : List Token) :
    operand (⟨w, p⟩ :: rest) = .ok (.literal value, rest) := by
  have hliteral : operand (⟨w, p⟩ :: rest) =
      (literal (⟨w, p⟩ :: rest)).andThen fun value rest => .ok (.literal value, rest) := by
    cases h <;> rfl
  rw [hliteral, literal_cons h]
  rfl

theorem operand_append {ws : List Word} {x : Operand} (h : IsOperand ws x) {taken rest : List Token}
    (htaken : words taken = ws) (hrest : Parted rest) : operand (taken ++ rest) = .ok (x, rest) := by
  cases h with
  | field h =>
    obtain ⟨name, names, rfl, rfl⟩ := isPath_iff.1 h
    obtain ⟨p, ts, rfl, hts⟩ := words_eq_cons htaken
    rw [List.cons_append, operand, pathTail_append hts fun _ => hrest]
    rfl
  | literal h =>
    obtain ⟨p, ts, rfl, hts⟩ := words_eq_cons htaken
    obtain rfl := words_eq_nil hts
    exact operand_cons h p rest

/-- A comparison with its right operand is taken. -/
theorem comparison_append {r : List Word} {x y : Operand} (op : Comparison) (h : IsOperand r y)
    (alone : List Token → Reading Expr) {p : Nat} {taken rest : List Token} (htaken : words taken = r)
    (hrest : Parted rest) :
    comparison x alone (⟨.comparison op, p⟩ :: (taken ++ rest)) = .ok (.compare x op y, rest) := by
  rw [comparison, operand_append h htaken hrest]
  rfl

/-- Without a comparison the left operand stands alone. -/
theorem comparison_of_ends {level : Level} (x : Operand) (alone : List Token → Reading Expr)
    {rest : List Token} (hrest : Ends level rest) : comparison x alone rest = alone rest := by
  unfold comparison
  split
  · have := hrest _ rfl
    simp at this
  · rfl

theorem test_append {ws : List Word} {e : Expr} (h : IsTest ws e) {taken rest : List Token}
    (htaken : words taken = ws) (hrest : Ends .unary rest) : test (taken ++ rest) = .ok (e, rest) := by
  cases h with
  | compare hl op hr =>
    obtain ⟨ls, us, rfl, hls, hus⟩ := words_eq_append htaken
    obtain ⟨q, rs, rfl, hrs⟩ := words_eq_cons hus
    have hparted : Parted (⟨.comparison op, q⟩ :: (rs ++ rest)) := by
      rintro t ⟨⟩
      simp
    rw [List.append_assoc, List.cons_append]
    cases hl with
    | field hl =>
      obtain ⟨name, names, rfl, rfl⟩ := isPath_iff.1 hl
      obtain ⟨p, ts, rfl, hts⟩ := words_eq_cons hls
      rw [List.cons_append, test, pathTail_append hts fun _ => hparted]
      exact comparison_append op hr (fun rest => .ok (.truthy (name :: names), rest)) (p := q) hrs
        hrest.parted
    | literal hl =>
      obtain ⟨p, ts, rfl, hts⟩ := words_eq_cons hls
      obtain rfl := words_eq_nil hts
      rw [List.singleton_append, test_cons hl]
      exact comparison_append op hr _ hrs hrest.parted
  | truthy h =>
    obtain ⟨name, names, rfl, rfl⟩ := isPath_iff.1 h
    obtain ⟨p, ts, rfl, hts⟩ := words_eq_cons htaken
    rw [List.cons_append, test, pathTail_append hts fun _ => hrest.parted]
    exact comparison_of_ends _ _ hrest
  | call h f argument =>
    obtain ⟨name, names, rfl, rfl⟩ := isPath_iff.1 h
    have hwords : words taken =
        .name name :: (tailWords names (some f) ++ [.string argument, .rparen]) := by
      rw [htaken]
      simp [tailWords]
    obtain ⟨p, us, rfl, hus⟩ := words_eq_cons hwords
    obtain ⟨ts, vs, rfl, hts, hvs⟩ := words_eq_append hus
    obtain ⟨q, zs, rfl, hzs⟩ := words_eq_cons hvs
    obtain ⟨r, ys, rfl, hys⟩ := words_eq_cons hzs
    obtain rfl := words_eq_nil hys
    rw [List.cons_append, List.append_assoc, test, pathTail_append hts fun hf => by cases hf]
    rfl

/-! ### Chains -/

theorem chainTail_nil (mark : Word) (join : Expr → Expr → Expr) (item : List Token → Reading Expr)
    (n : Nat) (left : Expr) : chainTail mark join item n left [] = .ok (left, []) := by
  cases n <;> rfl

/-- Bounds that are no less than the number of tokens do not matter. -/
theorem chainTail_bound {mark : Word} {join : Expr → Expr → Expr} {item : List Token → Reading Expr}
    {derives : List Word → Expr → Prop} (hitem : Takes item derives) {m n : Nat} {left : Expr}
    {ts : List Token} (hm : ts.length ≤ m) (hn : ts.length ≤ n) :
    chainTail mark join item m left ts = chainTail mark join item n left ts := by
  induction m generalizing n left ts with
  | zero =>
    obtain rfl := List.eq_nil_of_length_eq_zero (Nat.le_zero.1 hm)
    rw [chainTail_nil, chainTail_nil]
  | succ m ih =>
    cases ts with
    | nil => rw [chainTail_nil, chainTail_nil]
    | cons token ts =>
      obtain ⟨n, rfl⟩ := Nat.exists_eq_succ_of_ne_zero (Nat.ne_of_gt (Nat.lt_of_lt_of_le (by simp) hn))
      have hm : ts.length ≤ m := Nat.le_of_succ_le_succ hm
      have hn : ts.length ≤ n := Nat.le_of_succ_le_succ hn
      rw [chainTail, chainTail]
      split
      · cases hread : item ts with
        | error e => rfl
        | ok p =>
          -- what an item takes is not left
          obtain ⟨taken, hsplit, -⟩ := hitem _ _ _ hread
          have hlength : p.2.length ≤ ts.length := by
            rw [hsplit, List.length_append]
            omega
          exact ih (Nat.le_trans hlength hm) (Nat.le_trans hlength hn)
      · rfl

/-- A chain ends where its mark does not follow. -/
theorem chainTail_of_head {mark : Word} {join : Expr → Expr → Expr}
    {item : List Token → Reading Expr} {n : Nat} {left : Expr} {rest : List Token}
    (h : ∀ t ∈ rest.head?, t.word ≠ mark) :
    chainTail mark join item n left rest = .ok (left, rest) := by
  unfold chainTail
  split
  · rw [if_neg (h _ rfl)]
  · rfl

/-- One more item of a chain is joined to what there is. -/
theorem chainTail_append {mark : Word} {join : Expr → Expr → Expr} {item : List Token → Reading Expr}
    {derives : List Word → Expr → Prop} (hitem : Takes item derives) {left right : Expr} {p : Nat}
    {taken rest : List Token} (hread : item (taken ++ rest) = .ok (right, rest)) :
    chainTail mark join item (⟨mark, p⟩ :: (taken ++ rest)).length left (⟨mark, p⟩ :: (taken ++ rest)) =
      chainTail mark join item rest.length (join left right) rest := by
  rw [List.length_cons, chainTail, if_pos rfl, hread]
  exact chainTail_bound hitem (by simp) (Nat.le_refl _)

/-- A chain starts with an item and goes on from there. -/
theorem chain_eq (mark : Word) (join : Expr → Expr → Expr) {item : List Token → Reading Expr}
    {ts rest : List Token} {e : Expr} (h : item ts = .ok (e, rest)) :
    chain mark join item ts = chainTail mark join item rest.length e rest := by
  rw [chain, h]
  rfl

/-! ### Levels -/

namespace Level

/-- The rule of the parser for a level, where parentheses may nest `n` deep. -/
def rule (n : Nat) : Level → List Token → Reading Expr
  | expr => expression (n + 1)
  | and => chain .and .and (Filter.unary (expression n))
  | unary => Filter.unary (expression n)

/-- How the rule of a level goes on from an expression that it has read. -/
def resume (n : Nat) : Level → Expr → List Token → Reading Expr
  | expr, e, rest => chainTail .or .or (and.rule n) rest.length e rest
  | and, e, rest => chainTail .and .and (unary.rule n) rest.length e rest
  | unary, e, rest => .ok (e, rest)

variable {n : Nat} {rest : List Token}

theorem takes_rule (n : Nat) : (level : Level) → Takes (level.rule n) (Derives level)
  | expr => takes_expression (n + 1)
  | and => (chains_and (takes_expression n)).takes_chain
  | unary => takes_unary (takes_expression n)

theorem resume_and (h : Ends expr rest) (e : Expr) : and.resume n e rest = .ok (e, rest) := by
  refine chainTail_of_head fun t ht => ?_
  rcases h t ht with hw | hw | ⟨hw, -⟩
  · simp [hw]
  · simp [hw]
  · exact absurd rfl hw

theorem resume_expr (h : ∀ t ∈ rest.head?, t.word ≠ .or) (e : Expr) :
    expr.resume n e rest = .ok (e, rest) := chainTail_of_head h

end Level

theorem Ends.mono {level tighter : Level} {rest : List Token} (h : Ends level rest)
    (hle : tighter = .expr → level = .expr) : Ends tighter rest :=
  fun t ht => (h t ht).imp_right (Or.imp_right (And.imp_left (mt hle)))

/-- An expression in front of a mark ends there. -/
theorem ends_cons {level : Level} {w : Word} {p : Nat} {rest : List Token}
    (h : w = .rparen ∨ w = .or ∨ level ≠ .expr ∧ w = .and) : Ends level (⟨w, p⟩ :: rest) := by
  rintro t ⟨⟩
  exact h

/-- Neither `!` nor a parenthesis starts an operand. -/
theorem IsOperand.exists_first {ws : List Word} {x : Operand} (h : IsOperand ws x) :
    ∃ w us, ws = w :: us ∧ w ≠ .not ∧ w ≠ .lparen := by
  rcases h with ⟨⟨⟩⟩ | ⟨⟨⟩⟩ <;> exact ⟨_, _, rfl, by simp, by simp⟩

/-- A test starts as its first operand does. -/
theorem IsTest.exists_first {ws : List Word} {e : Expr} (h : IsTest ws e) :
    ∃ w us, ws = w :: us ∧ w ≠ .not ∧ w ≠ .lparen := by
  cases h with
  | compare hl op hr =>
    obtain ⟨w, us, rfl, hw⟩ := hl.exists_first
    exact ⟨w, _, rfl, hw⟩
  | truthy h => exact (IsOperand.field h).exists_first
  | call h f argument =>
    obtain ⟨w, us, rfl, hw⟩ := (IsOperand.field h).exists_first
    exact ⟨w, _, rfl, hw⟩

/-- So a test is not read as anything else. -/
theorem unary_of_isTest {inner : List Token → Reading Expr} {ws : List Word} {e : Expr}
    (h : IsTest ws e) {taken rest : List Token} (htaken : words taken = ws) :
    unary inner (taken ++ rest) = test (taken ++ rest) := by
  obtain ⟨w, us, rfl, hnot, hlparen⟩ := h.exists_first
  obtain ⟨p, ts, rfl, -⟩ := words_eq_cons htaken
  rw [List.cons_append]
  unfold unary
  split
  · rename_i heq
    cases heq
    exact absurd rfl hnot
  · rename_i heq
    cases heq
    exact absurd rfl hlparen
  · rfl

/-- **What is derived is read.**  The rule of a level, given the words of an expression and more, goes on
with the rest from that expression.  The induction is on the derivation; in a chain it leads from the
left to the right, as the parser goes. -/
theorem Derives.rule_append {level : Level} {ws : List Word} {e : Expr} (h : Derives level ws e)
    {n : Nat} {taken rest : List Token} (htaken : words taken = ws) (hn : ws.length ≤ n + 1)
    (hrest : Ends level rest) : level.rule n (taken ++ rest) = level.resume n e rest := by
  induction h generalizing n taken rest with
  | ofAnd h ih =>
    exact chain_eq .or .or ((ih htaken hn (hrest.mono (by simp))).trans (Level.resume_and hrest _))
  | or hl hr ihl ihr =>
    obtain ⟨ls, us, rfl, hls, hus⟩ := words_eq_append htaken
    obtain ⟨p, rs, rfl, hrs⟩ := words_eq_cons hus
    simp only [List.length_append, List.length_cons] at hn
    have hright := (ihr hrs (by omega) (hrest.mono (by simp))).trans (Level.resume_and (n := n) hrest _)
    rw [List.append_assoc, List.cons_append, ihl hls (by omega) (ends_cons (by simp))]
    exact chainTail_append (Level.takes_rule n .and) hright
  | ofUnary h ih => exact chain_eq .and .and (ih htaken hn (hrest.mono (by simp)))
  | and hl hr ihl ihr =>
    obtain ⟨ls, us, rfl, hls, hus⟩ := words_eq_append htaken
    obtain ⟨p, rs, rfl, hrs⟩ := words_eq_cons hus
    simp only [List.length_append, List.length_cons] at hn
    have hright := ihr hrs (n := n) (by omega) (hrest.mono (by simp))
    rw [List.append_assoc, List.cons_append, ihl hls (by omega) (ends_cons (by simp))]
    exact chainTail_append (Level.takes_rule n .unary) hright
  | not h ih =>
    obtain ⟨p, ts, rfl, hts⟩ := words_eq_cons htaken
    have hinner := ih hts (n := n) (by simp at hn; omega) hrest
    show unary (expression n) (⟨.not, p⟩ :: (ts ++ rest)) = _
    rw [unary]
    show (Level.unary.rule n (ts ++ rest)).andThen _ = _
    rw [hinner]
    rfl
  | parens h ih =>
    obtain ⟨p, us, rfl, hus⟩ := words_eq_cons htaken
    obtain ⟨ts, vs, rfl, hts, hvs⟩ := words_eq_append hus
    obtain ⟨q, zs, rfl, hzs⟩ := words_eq_cons hvs
    obtain rfl := words_eq_nil hzs
    simp only [List.length_append, List.length_cons, List.length_nil] at hn
    obtain ⟨n, rfl⟩ := Nat.exists_eq_succ_of_ne_zero (show n ≠ 0 by omega)
    have hclose : ∀ t ∈ (⟨.rparen, q⟩ :: rest : List Token).head?, t.word ≠ .or := by
      rintro t ⟨⟩
      simp
    have hends : Ends .expr (⟨.rparen, q⟩ :: rest) := ends_cons (.inl rfl)
    have hinner := (ih hts (n := n) (by omega) hends).trans (Level.resume_expr hclose _)
    show unary (expression (n + 1)) (⟨.lparen, p⟩ :: (ts ++ [⟨.rparen, q⟩] ++ rest)) = _
    rw [unary, List.append_assoc, List.singleton_append]
    show (Level.expr.rule n (ts ++ ⟨.rparen, q⟩ :: rest)).andThen close = _
    rw [hinner]
    rfl
  | ofTest h => exact (unary_of_isTest h htaken).trans (test_append h htaken hrest)

/-- **Derived words are a filter.** -/
theorem ofTokens?_of_derives {tokens : List Token} {e : Expr} (h : Derives .expr (words tokens) e) :
    Expr.ofTokens? tokens = .ok e := by
  have hbound : (words tokens).length ≤ tokens.length - 1 + 1 := by
    rw [words, List.length_map]
    omega
  have hends : Ends .expr [] := by simp [Ends]
  have hread := h.rule_append rfl hbound hends
  rw [List.append_nil, Level.resume_expr (by simp)] at hread
  cases tokens with
  | nil => cases hread
  | cons token tokens =>
    change expression (token :: tokens).length (token :: tokens) = _ at hread
    rw [Expr.ofTokens?, hread]

/-- A filter's words are derived. -/
theorem derives_of_ofTokens? {tokens : List Token} {e : Expr} (h : Expr.ofTokens? tokens = .ok e) :
    Derives .expr (words tokens) e := by
  unfold Expr.ofTokens? at h
  split at h
  · cases h
  · split at h
    · rename_i hread
      obtain ⟨taken, hsplit, hderives⟩ := takes_expression _ _ _ _ hread
      obtain rfl := Except.ok.inj h
      rw [List.append_nil] at hsplit
      exact hsplit ▸ hderives
    · cases h
    · cases h

/-- **The filters are the sentences of the grammar.**  Tokens are read as an expression if and only if
their words derive it, and no words derive two expressions. -/
theorem ofTokens?_eq_ok_iff :
    (∀ tokens e, Expr.ofTokens? tokens = .ok e ↔ Derives .expr (tokens.map Token.word) e) ∧
      ∀ ws x y, Derives .expr ws x → Derives .expr ws y → x = y := by
  refine ⟨fun tokens e => ⟨derives_of_ofTokens?, ofTokens?_of_derives⟩, fun ws x y hx hy => ?_⟩
  -- words become tokens at any positions
  have hwords : words (ws.map fun w => ⟨w, 0⟩) = ws := by
    rw [words, List.map_map]
    exact List.map_id _
  rw [← hwords] at hx hy
  exact Except.ok.inj ((ofTokens?_of_derives hx).symm.trans (ofTokens?_of_derives hy))

/-- `a || b || !c && d.contains("x")` is one expression. -/
theorem ofTokens?_eq_ok_iff_chain :
    let ws : List Word := [.name "a", .or, .name "b", .or, .not, .name "c", .and, .name "d", .dot,
      .name "contains", .lparen, .string "x", .rparen]
    let e : Expr := .or (.or (.truthy ["a"]) (.truthy ["b"]))
      (.and (.not (.truthy ["c"])) (.call ["d"] .contains "x"))
    Derives .expr ws e ∧ ∀ x, Derives .expr ws x → x = e := by
  intro ws e
  obtain ⟨hiff, hunique⟩ := ofTokens?_eq_ok_iff
  have hderives : Derives .expr ws e := (hiff (ws.map fun w => ⟨w, 0⟩) e).1 rfl
  exact ⟨hderives, fun x hx => hunique ws x e hx hderives⟩

end Gatehouse.Filter
