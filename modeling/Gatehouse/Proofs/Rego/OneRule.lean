import Gatehouse.Proofs.Rego.Runs
import Gatehouse.Proofs.Rego.Source

/-!
# Policies of one rule

A package on the first line, and one rule behind it.

1. **From a rule to a policy** (`parse_of_rule`).  If the rule is read up to the end of the source, the policy is the
   module of that rule.  The rule is read if its body is (`rule_of_body`), or the value of its head (`rule_of_value`).
2. **From a policy to its body** (`body_of_parse`).  If the policy is a module whose one rule has one body, the body was
   read in braces that end with the source.  What stops the loops behind a body goes past no closing brace (`Spares`).
-/

namespace Gatehouse.Rego

open Gatehouse.Text Gatehouse.Rego.Parser
open Cursor (start)

/-- A plain name is none of the words that may stand in its place. -/
theorem ne_keyword {name word : String} (h : isPlainName name = true) (hword : word ∈ keywords) : name ≠ word := by
  rintro rfl
  rw [isPlainName, List.contains_iff_mem.2 hword] at h
  cases h

variable {package name : String} {t₀ t₁ t₂ r t u v e : Token} {ts us vs : List Token} {rl : Rule}

theorem start_settled (h : t.kind ≠ .newline) : (start (t :: ts)).settled = start (t :: ts) :=
  Cursor.settled_of_ne rfl h

theorem start_next (h : t.kind ≠ .newline) : (start (t :: ts)).Next t := Cursor.next_of_ne rfl h

theorem skipNewlines_start (h : t.kind ≠ .newline) :
    skipNewlines (start (t :: ts)) = (.done (), start (t :: ts)) := by
  rw [skipNewlines_of_next rfl (start_next h), start_settled h]

theorem takeWord_start {word : String} (h : t.kind ≠ .newline) (ht : t.kind ≠ .name word) :
    takeWord word (start (t :: ts)) = (.done false, start (t :: ts)) := by
  rw [takeWord_declines (start_next h) ht, start_settled h]

theorem takeSymbol_start {s : Symbol} (h : t.kind ≠ .newline) (ht : t.kind ≠ .symbol s) :
    takeSymbol s (start (t :: ts)) = (.done false, start (t :: ts)) := by
  rw [takeSymbol_declines (start_next h) ht, start_settled h]

theorem takeTight_start {s : Symbol} (h : t.kind ≠ .newline) (ht : t.kind ≠ .symbol s) :
    takeIf (atTight s) (start (t :: ts)) = (.done false, start (t :: ts)) := by
  rw [takeTight_declines (start_next h) fun hs => absurd hs ht, start_settled h]

theorem place_start (h : t.kind ≠ .newline) : place (start (t :: ts)) = (.done t.location, start (t :: ts)) := by
  rw [place_of_next (start_next h), start_settled h]

/-! ## The package -/

/-- The package on the first line. -/
theorem package_of_line (h₀ : t₀.kind = .name "package") (h₁ : t₁.kind = .name package)
    (hpackage : isPlainName package = true) (h₂ : t₂.kind = .newline) (hr : r.kind = .name name) :
    Rego.package (start (t₀ :: t₁ :: t₂ :: r :: ts)) = (.done ⟨[package], t₀.location⟩, start (r :: ts)) := by
  have hne₀ : t₀.kind ≠ .newline := by simp [h₀]
  have hne₁ : t₁.kind ≠ .newline := by simp [h₁]
  have hne : r.kind ≠ .newline := by simp [hr]
  have hvisible : (start (t₂ :: r :: ts)).settled = start (r :: ts) := by
    show start ((t₂ :: r :: ts).dropWhile isNewline) = _
    rw [List.dropWhile_cons_of_pos (by simp [isNewline, h₂]),
      List.dropWhile_cons_of_neg (by simpa [isNewline] using hne)]
  have hnext : (start (t₂ :: r :: ts)).Next r := by rw [Cursor.Next, hvisible]; rfl
  have hsegment : segment (start (t₂ :: r :: ts)) = (.done none, start (r :: ts)) := by
    rw [segment, bind_of_done (takeTight_declines hnext fun hs => absurd (hr.symm.trans hs) Kind.noConfusion), hvisible]
    exact bind_of_done (takeTight_start hne (by simp [hr]))
  rw [Rego.package, bind_of_done (place_start hne₀),
    bind_of_done (advance_of_cons (by rw [start_settled hne₀]; rfl) (List.cons_ne_nil _ _))]
  have hahead : (start (t₁ :: t₂ :: r :: ts)).settled.ahead = t₁ :: t₂ :: r :: ts := by
    rw [Cursor.settled_of_ne rfl hne₁]
    rfl
  refine (bind_of_done (expectName_takes hahead (List.cons_ne_nil _ _) h₁ hpackage)).trans ?_
  exact bind_of_done (many_declines hsegment (Nat.succ_pos _))

/-! ## The rule -/

theorem import?_of_name (hr : r.kind = .name name) (hname : isPlainName name = true) (ts : List Token) :
    Rego.import? (start (r :: ts)) = (.done none, start (r :: ts)) := by
  have hne : r.kind ≠ .newline := by simp [hr]
  have hword : r.kind ≠ .name "import" := by simpa [hr] using ne_keyword hname (by decide)
  rw [import?, bind_of_done (skipNewlines_start hne), bind_of_done (place_start hne)]
  exact bind_of_done (takeWord_start hne hword)

theorem semicolons_start (hne : t.kind ≠ .newline) (ht : t.kind ≠ .symbol .semicolon) :
    many semicolon (start (t :: ts)) = (.done [], start (t :: ts)) :=
  many_declines (bind_of_done (takeSymbol_start hne ht)) (Nat.succ_pos _)

theorem rule?_of_name (hr : r.kind = .name name) (ts : List Token) :
    rule? (start (r :: ts)) = (do return some (← rule) : Parser (Option Rule)) (start (r :: ts)) := by
  have hne : r.kind ≠ .newline := by simp [hr]
  rw [rule?, bind_of_done (skipNewlines_start hne), bind_of_done (semicolons_start hne (by simp [hr])),
    bind_of_done (atEnd_of_next (start_next hne)), start_settled hne, hr]
  rfl

/-- There are no more rules at the end of the source. -/
theorem rule?_of_end (h : (start us).Next e) (he : e.kind = .endOfInput) :
    rule? (start us) = (.done none, (start us).settled) := by
  have hne : e.kind ≠ .newline := by simp [he]
  obtain ⟨vs, hvs⟩ := List.head?_eq_some_iff.1 h
  have hsettled : (start us).settled = start (e :: vs) := hvs ▸ rfl
  rw [rule?, bind_of_done (skipNewlines_of_next rfl h), hsettled,
    bind_of_done (semicolons_start hne (by simp [he])), bind_of_done (atEnd_of_next (start_next hne)),
    start_settled hne, he]
  rfl

/-- Behind the package there are rules. -/
theorem module_of_line (h₀ : t₀.kind = .name "package") (h₁ : t₁.kind = .name package)
    (hpackage : isPlainName package = true) (h₂ : t₂.kind = .newline) (hr : r.kind = .name name)
    (hname : isPlainName name = true) : module (start (t₀ :: t₁ :: t₂ :: r :: ts)) =
      (do return ⟨⟨[package], t₀.location⟩, [], ← many rule?⟩ : Parser Module) (start (r :: ts)) := by
  have hne₀ : t₀.kind ≠ .newline := by simp [h₀]
  rw [module, bind_of_done (skipNewlines_start hne₀), bind_of_done (atWord_of_next "package" (start_next hne₀)),
    start_settled hne₀, h₀]
  show (Rego.package >>= _) (start (t₀ :: t₁ :: t₂ :: r :: ts)) = _
  rw [bind_of_done (package_of_line h₀ h₁ hpackage h₂ hr)]
  exact bind_of_done (many_declines (import?_of_name hr hname ts) (Nat.succ_pos _))

/-- **A package and a rule are a module**, if the rule is read up to the end of the source. -/
theorem parse_of_rule (h₀ : t₀.kind = .name "package") (h₁ : t₁.kind = .name package)
    (hpackage : isPlainName package = true) (h₂ : t₂.kind = .newline) (hr : r.kind = .name name)
    (hname : isPlainName name = true) (hrule : rule (start (r :: ts)) = (.done rl, start us))
    (hlt : us.length < (r :: ts).length) (hend : (start us).Next e) (he : e.kind = .endOfInput) :
    Module.parse (t₀ :: t₁ :: t₂ :: r :: ts) = (.done ⟨⟨[package], t₀.location⟩, [], [rl]⟩, (start us).settled) := by
  have hrules : many rule? (start (r :: ts)) = (.done [rl], (start us).settled) :=
    many_once ((rule?_of_name hr ts).trans (bind_of_done hrule)) hlt (rule?_of_end hend he) hend.length_pos
  exact (module_of_line h₀ h₁ hpackage h₂ hr hname).trans (bind_of_done hrules)

/-! ## Bodies and values -/

/-- There is nothing behind a rule at the end of the source. -/
theorem alternatives_of_end {c : Cursor} (h : c.Next e) (he : e.kind = .endOfInput) :
    many alternative c = (.done [], c.settled) := by
  have hne : c.settled.Next e := Cursor.next_settled.2 h
  refine many_declines ?_ h.length_pos
  rw [alternative, bind_of_done (place_of_next h)]
  refine (bind_of_done (takeWord_declines hne (by simp [he]))).trans ?_
  rw [Cursor.settled_settled]
  rfl

theorem anotherBlock_of_end {c : Cursor} (h : c.Next e) (he : e.kind = .endOfInput) :
    anotherBlock c = (.done none, c.settled) := by
  rw [anotherBlock, bind_of_done (atSymbol_of_next .lbrace h), he]
  rfl

/-- The name of a rule, and no arguments and no key behind it. -/
theorem signature_of_mark (ht : t.kind = .symbol .lbrace ∨ t.kind = .symbol .unify) :
    signature (start (t :: ts)) = (.done (.complete, [], none), start (t :: ts)) := by
  have hne : t.kind ≠ .newline := by rcases ht with ht | ht <;> simp [ht]
  have hparen : t.kind ≠ .symbol .lparen := by rcases ht with ht | ht <;> simp [ht]
  have hbracket : t.kind ≠ .symbol .lbracket := by rcases ht with ht | ht <;> simp [ht]
  have hword : t.kind ≠ .name "contains" := by rcases ht with ht | ht <;> simp [ht]
  rw [signature, bind_of_done (takeTight_start hne hparen)]
  refine (bind_of_done (takeTight_start hne hbracket)).trans ?_
  exact bind_of_done (takeWord_start hne hword)

/-- Behind the name of a rule there are bodies. -/
theorem rule_of_lbrace (hr : r.kind = .name name) (hname : isPlainName name = true) (ht : t.kind = .symbol .lbrace) :
    rule (start (r :: t :: ts)) = (do
      let bodies ← many anotherBlock
      let otherwise ← many alternative
      return ⟨false, ⟨name, .complete, [], none, none, false⟩, bodies, otherwise, r.location⟩ : Parser Rule)
        (start (t :: ts)) := by
  have hne : r.kind ≠ .newline := by simp [hr]
  have hne' : t.kind ≠ .newline := by simp [ht]
  have hhead : head (start (r :: t :: ts)) =
      (.done ⟨name, .complete, [], none, none, false⟩, start (t :: ts)) := by
    have hclause : valueClause (start (t :: ts)) = (.done none, start (t :: ts)) := by
      rw [valueClause, bind_of_done (takeSymbol_start hne' (by simp [ht]))]
      exact bind_of_done (takeSymbol_start hne' (by simp [ht]))
    rw [head]
    refine (bind_of_done (expectName_takes (by rw [start_settled hne]; rfl) (List.cons_ne_nil _ _) hr hname)).trans ?_
    refine (bind_of_done (signature_of_mark (.inl ht))).trans ?_
    exact bind_of_done hclause
  have hbodies : bodies (start (t :: ts)) = many anotherBlock (start (t :: ts)) :=
    bind_of_done (takeWord_start hne' (by simp [ht]))
  rw [rule, bind_of_done (place_start hne),
    bind_of_done (takeWord_start hne (by simpa [hr] using ne_keyword hname (by decide))), bind_of_done hhead]
  show (bodies >>= _) (start (t :: ts)) = _
  rw [bind_apply, hbodies, ← bind_apply]

theorem anotherBlock_of_lbrace (ht : t.kind = .symbol .lbrace) : anotherBlock (start (t :: ts)) =
    (do return some (← outermost.body) : Parser (Option Body)) (start (t :: ts)) := by
  have hne : t.kind ≠ .newline := by simp [ht]
  rw [anotherBlock, bind_of_done (atSymbol_of_next .lbrace (start_next hne)), start_settled hne, ht]
  rfl

/-- A rule that has nothing but a body. -/
theorem rule_of_body (hr : r.kind = .name name) (hname : isPlainName name = true) (ht : t.kind = .symbol .lbrace)
    {b : Body} (hbody : outermost.body (start (t :: ts)) = (.done b, start us)) (hlt : us.length < (t :: ts).length)
    (hend : (start us).Next e) (he : e.kind = .endOfInput) :
    rule (start (r :: t :: ts)) =
      (.done ⟨false, ⟨name, .complete, [], none, none, false⟩, [b], [], r.location⟩, (start us).settled) := by
  have hblock : anotherBlock (start (t :: ts)) = (.done (some b), start us) :=
    (anotherBlock_of_lbrace ht).trans (bind_of_done hbody)
  have hbodies : many anotherBlock (start (t :: ts)) = (.done [b], (start us).settled) :=
    many_once hblock hlt (anotherBlock_of_end hend he) hend.length_pos
  have hnext : (start us).settled.Next e := Cursor.next_settled.2 hend
  have hmore : many alternative (start us).settled = (.done [], (start us).settled) := by
    rw [alternatives_of_end hnext he, Cursor.settled_settled]
  rw [rule_of_lbrace hr hname ht, bind_of_done hbodies]
  exact bind_of_done hmore

/-- A rule that has nothing but a value. -/
theorem rule_of_value (hr : r.kind = .name name) (hname : isPlainName name = true) (ht : t.kind = .symbol .unify)
    {item : Term} (hts : ts ≠ []) (hitem : value outermost (start ts) = (.done item, start us))
    (hend : (start us).Next e) (he : e.kind = .endOfInput) :
    rule (start (r :: t :: ts)) =
      (.done ⟨false, ⟨name, .complete, [], none, some item, false⟩, [], [], r.location⟩, (start us).settled) := by
  have hne : r.kind ≠ .newline := by simp [hr]
  have hne' : t.kind ≠ .newline := by simp [ht]
  have hhead : head (start (r :: t :: ts)) = (.done ⟨name, .complete, [], none, some item, false⟩, start us) := by
    have hmark : takeSymbol .unify (start (t :: ts)) = (.done true, start ts) :=
      takeSymbol_takes (by rw [start_settled hne']; rfl) hts ht
    have hclause : valueClause (start (t :: ts)) = (.done (some (false, item)), start us) := by
      rw [valueClause, bind_of_done (takeSymbol_start hne' (by simp [ht]))]
      refine (bind_of_done hmark).trans ?_
      exact bind_of_done hitem
    rw [head]
    refine (bind_of_done (expectName_takes (by rw [start_settled hne]; rfl) (List.cons_ne_nil _ _) hr hname)).trans ?_
    refine (bind_of_done (signature_of_mark (.inr ht))).trans ?_
    exact bind_of_done hclause
  have hnext : (start us).settled.Next e := Cursor.next_settled.2 hend
  have hblock : anotherBlock (start us).settled = (.done none, (start us).settled) := by
    rw [anotherBlock_of_end hnext he, Cursor.settled_settled]
  have hbodies : bodies (start us) = (.done [], (start us).settled) := by
    rw [bodies, bind_of_done (takeWord_declines hend (by simp [he]))]
    exact many_declines hblock hnext.length_pos
  have hmore : many alternative (start us).settled = (.done [], (start us).settled) := by
    rw [alternatives_of_end hnext he, Cursor.settled_settled]
  rw [rule, bind_of_done (place_start hne),
    bind_of_done (takeWord_start hne (by simpa [hr] using ne_keyword hname (by decide))), bind_of_done hhead]
  refine (bind_of_done hbodies).trans ?_
  exact bind_of_done hmore

/-! ## What is behind a body -/

section

variable {α β : Type} {brace : Token} {c : Cursor}

/-- With such an answer, the parser does not go past the token. -/
def Spares (brace : Token) (p : Parser α) (gives : α → Prop) : Prop :=
  ∀ c a, (p c).1 = .done a → gives a → brace ∈ c.ahead → brace ∈ (p c).2.ahead

theorem spares_pure (a : α) (gives : α → Prop) : Spares brace (pure a) gives := fun _ _ _ _ => id

theorem Spares.bind {p : Parser α} {f : α → Parser β} {gives : β → Prop} (hp : Spares brace p always)
    (hf : ∀ a, Spares brace (f a) gives) : Spares brace (p >>= f) gives := by
  intro c b hb hgives hmem
  obtain ⟨a, ha, hrun⟩ := exists_of_bind hb
  rw [hrun] at hb ⊢
  exact hf a _ b hb hgives (hp c a ha trivial hmem)

/-- Nothing is asked where there is no such answer. -/
theorem Spares.of_leaves {p : Parser α} {gives : α → Prop} (h : Leaves p fun a _ => ¬gives a) : Spares brace p gives :=
  fun c a ha hgives => absurd hgives (h c a ha)

theorem leaves_some {p : Parser α} : Leaves (do return some (← p)) fun a _ => ¬a = none :=
  .bind fun a _ _ h => Outcome.done.inj h ▸ Option.some_ne_none a

theorem mem_dropWhile {test : Token → Bool} {ts : List Token} (h : test brace = false) (hmem : brace ∈ ts) :
    brace ∈ ts.dropWhile test := by
  rw [← List.takeWhile_append_dropWhile (p := test) (l := ts)] at hmem
  refine (List.mem_append.1 hmem).resolve_left fun hpassed => ?_
  exact Bool.false_ne_true (h.symm.trans (List.mem_takeWhile_imp hpassed))

theorem spares_skip {test : Token → Bool} (h : test brace = false) : Spares brace (skip test) always := by
  intro c a ha _ hmem
  have hbehind := mem_dropWhile h hmem
  obtain ⟨t, ts, hts⟩ := List.exists_cons_of_ne_nil (List.ne_nil_of_mem hbehind)
  rw [skip_of_dropWhile hts]
  exact hts ▸ hbehind

theorem mem_settled (hne : brace.kind ≠ .newline) (hmem : brace ∈ c.ahead) : brace ∈ c.settled.ahead := by
  show brace ∈ c.visible c.ahead
  unfold Cursor.visible
  split
  · exact hmem
  · exact mem_dropWhile (decide_eq_false hne) hmem

theorem spares_peek (hne : brace.kind ≠ .newline) : Spares brace peek always := by
  intro c a ha _ hmem
  have hsettled := mem_settled hne hmem
  obtain ⟨t, ts, hts⟩ := List.exists_cons_of_ne_nil (List.ne_nil_of_mem hsettled)
  have hnext : c.Next t := congrArg List.head? hts
  rw [peek_of_next hnext]
  exact hsettled

/-- A token is taken only if it passes the test. -/
theorem spares_takeIf {test : Token → Bool} (hne : brace.kind ≠ .newline) (h : test brace = false) :
    Spares brace (takeIf do return test (← peek)) always := by
  intro c a ha _ hmem
  have hsettled := mem_settled hne hmem
  obtain ⟨t, ts, hts⟩ := List.exists_cons_of_ne_nil (List.ne_nil_of_mem hsettled)
  cases ht : test t with
  | false =>
    have hnext : c.Next t := congrArg List.head? hts
    rw [takeIf_declines hnext ht]
    exact hsettled
  | true =>
    have hbehind : brace ∈ ts := by
      rw [hts] at hsettled
      refine (List.mem_cons.1 hsettled).resolve_left fun hsame => ?_
      exact Bool.false_ne_true (h.symm.trans (hsame ▸ ht))
    rw [takeIf_takes hts (List.ne_nil_of_mem hbehind) ht]
    exact hbehind

theorem Spares.rounds {step : Parser (Option α)} {as : List α} {c' : Cursor} (h : Spares brace step always)
    (hrounds : Rounds step c as c') (hmem : brace ∈ c.ahead) : brace ∈ c'.ahead := by
  induction hrounds with
  | stop hstep =>
    have hspared := h _ none (congrArg Prod.fst hstep) trivial hmem
    rwa [hstep] at hspared
  | @more a _ _ _ _ hstep _ ih =>
    have hspared := h _ (some a) (congrArg Prod.fst hstep) trivial hmem
    rw [hstep] at hspared
    exact ih hspared

theorem Spares.many {step : Parser (Option α)} (h : Spares brace step always) : Spares brace (many step) always :=
  fun _ _ has _ => h.rounds (rounds_of_many (Prod.ext has rfl))

variable (hbrace : brace.kind = .symbol .rbrace)

include hbrace

/-- Where there is no more of a rule, and where there are no more rules, no closing brace is left behind. -/
theorem spares_anotherBlock : Spares brace anotherBlock (· = none) := by
  have hlook : Spares brace (atSymbol .lbrace) always :=
    (spares_peek (by simp [hbrace])).bind fun t => spares_pure _ _
  refine hlook.bind fun found => ?_
  cases found with
  | true => exact .of_leaves leaves_some
  | false => exact spares_pure _ _

theorem spares_alternative : Spares brace alternative (· = none) := by
  have hplace : Spares brace place always := (spares_peek (by simp [hbrace])).bind fun t => spares_pure _ _
  have hword : ∀ word, Spares brace (takeWord word) always := fun word =>
    spares_takeIf (by simp [hbrace]) (by simp [hbrace])
  refine hplace.bind fun location => (hword "else").bind fun found => ?_
  cases found with
  | false => exact spares_pure _ _
  | true =>
    refine .of_leaves (.bind fun clause => .bind fun conditional => ?_)
    cases conditional with
    | true => exact .bind fun body _ _ h => Outcome.done.inj h ▸ Option.some_ne_none _
    | false =>
      refine .bind fun braced => ?_
      cases braced with
      | true => exact .bind fun body _ _ h => Outcome.done.inj h ▸ Option.some_ne_none _
      | false => exact fun _ _ h => Outcome.done.inj h ▸ Option.some_ne_none _

theorem spares_rule? : Spares brace rule? (· = none) := by
  have hne : brace.kind ≠ .newline := by simp [hbrace]
  have hnewlines : Spares brace skipNewlines always := spares_skip (decide_eq_false hne)
  have hsemicolon : Spares brace semicolon always := by
    refine (spares_takeIf hne (by simp [hbrace])).bind fun found => ?_
    cases found with
    | true => exact hnewlines.bind fun _ => spares_pure _ _
    | false => exact spares_pure _ _
  have hend : Spares brace atEnd always := (spares_peek hne).bind fun t => spares_pure _ _
  refine hnewlines.bind fun _ => hsemicolon.many.bind fun _ => hend.bind fun ended => ?_
  cases ended with
  | true => exact spares_pure _ _
  | false => exact .of_leaves leaves_some

end

/-- The one body of a rule is read from its opening brace on, and no closing brace is behind it that is not behind the
rule. -/
theorem body_of_rule (hr : r.kind = .name name) (hname : isPlainName name = true) (ht : t.kind = .symbol .lbrace)
    {isDefault : Bool} {hd : Head} {b : Body} {l : Location} {after : Cursor}
    (hrule : rule (start (r :: t :: ts)) = (.done ⟨isDefault, hd, [b], [], l⟩, after)) :
    ∃ us, outermost.body (start (t :: ts)) = (.done b, start us) ∧
      ∀ brace ∈ us, brace.kind = .symbol .rbrace → brace ∈ after.ahead := by
  obtain ⟨bs, c₁, hbodies, hrest⟩ := bind_eq_done ((rule_of_lbrace hr hname ht).symm.trans hrule)
  obtain ⟨otherwise, c₂, hotherwise, hlast⟩ := bind_eq_done hrest
  obtain ⟨hsame, rfl⟩ := Prod.mk.inj hlast
  obtain ⟨-, -, rfl, rfl, -⟩ := Rule.mk.inj (Outcome.done.inj hsame)
  obtain ⟨c₃, hblock, hnoMore⟩ := once_of_many hbodies
  have hnoElse := none_of_many hotherwise
  obtain ⟨b', c₄, hbody, hsome⟩ := bind_eq_done ((anotherBlock_of_lbrace ht).symm.trans hblock)
  obtain ⟨hsame', rfl⟩ := Prod.mk.inj hsome
  obtain rfl := Option.some.inj (Outcome.done.inj hsame')
  have hfollows : c₄.Follows (start (t :: ts)) := by
    have hsteady := ((isSteady_inner maxNesting).body (start (t :: ts))).follows
    change (outermost.body (start (t :: ts))).2.Follows _ at hsteady
    rwa [hbody] at hsteady
  refine ⟨c₄.ahead, hbody.trans (congrArg (Prod.mk _) hfollows.eq_withAhead), fun brace hmem hbrace => ?_⟩
  have hbodies := spares_anotherBlock hbrace c₄ none (congrArg Prod.fst hnoMore) rfl hmem
  rw [hnoMore] at hbodies
  have helse := spares_alternative hbrace c₁ none (congrArg Prod.fst hnoElse) rfl hbodies
  rwa [hnoElse] at helse

/-- An end of the list without the last token but one is the last token. -/
theorem eq_singleton_of_suffix {ts us : List Token} {r last : Token} (hne : us ≠ []) (hr : r ∉ us)
    (h : us <:+ ts ++ [r, last]) : us = [last] := by
  have hline : ts ++ [r, last] = (ts ++ [r]) ++ [last] := by simp
  rcases List.suffix_concat_iff.1 (hline ▸ h) with hnil | ⟨front, rfl, hfront⟩
  · exact absurd hnil hne
  · rcases List.suffix_concat_iff.1 hfront with rfl | ⟨front', rfl, -⟩
    · rfl
    · exact absurd (by simp) hr

/-- **The one body of the one rule of a policy** is read in the braces that end with the source. -/
theorem body_of_parse (h₀ : t₀.kind = .name "package") (h₁ : t₁.kind = .name package)
    (hpackage : isPlainName package = true) (h₂ : t₂.kind = .newline) (hr : r.kind = .name name)
    (hname : isPlainName name = true) (ht : t.kind = .symbol .lbrace) {brace : Token}
    (hbrace : brace.kind = .symbol .rbrace) (he : e.kind = .endOfInput)
    (hclosed : IsClosed (t₀ :: t₁ :: t₂ :: r :: t :: (ts ++ [brace, e]))) {m : Module}
    (hread : (Module.parse (t₀ :: t₁ :: t₂ :: r :: t :: (ts ++ [brace, e]))).1.toExcept = .ok m) {isDefault : Bool}
    {hd : Head} {b : Body} {l : Location} (hm : m.rules = [⟨isDefault, hd, [b], [], l⟩]) :
    outermost.body (start (t :: (ts ++ [brace, e]))) = (.done b, start [e]) := by
  have hall : t₀ :: t₁ :: t₂ :: r :: t :: (ts ++ [brace, e]) = t₀ :: t₁ :: t₂ :: r :: t :: (ts ++ [brace]) ++ [e] := by
    simp
  have hreads := reads_parse (hall ▸ hclosed)
  rw [← hall, hread] at hreads
  cases hreads with
  | @module m after hparse _ hend =>
    obtain ⟨rules, _, hrules, hlast⟩ := bind_eq_done ((module_of_line h₀ h₁ hpackage h₂ hr hname).symm.trans hparse)
    obtain ⟨hmodule, rfl⟩ := Prod.mk.inj hlast
    obtain rfl : rules = [⟨isDefault, hd, [b], [], l⟩] := (congrArg Module.rules (Outcome.done.inj hmodule)).trans hm
    obtain ⟨_, hfirst, hended⟩ := once_of_many hrules
    obtain ⟨rl, c₁, hrule, hsome⟩ := bind_eq_done ((rule?_of_name hr (t :: (ts ++ [brace, e]))).symm.trans hfirst)
    obtain ⟨hsame, rfl⟩ := Prod.mk.inj hsome
    obtain rfl := Option.some.inj (Outcome.done.inj hsame)
    obtain ⟨us, hbody, hspared⟩ := body_of_rule hr hname ht hrule
    have hsteady := (isSteady_inner maxNesting).body (start (t :: (ts ++ [brace, e])))
    change Meets maxNesting _ outermost.body always at hsteady
    have hstart : (start (t :: (ts ++ [brace, e]))).IsReady maxNesting := Cursor.isReady_start
      ((((hclosed.tail (by simp [h₀])).tail (by simp [h₁])).tail (by simp [h₂])).tail (by simp [hr]))
    have hus := hsteady.closed hstart
    have hsuffix := hsteady.follows.ahead
    rw [hbody] at hus hsuffix
    have hnone : brace ∉ us := fun hmem => by
      have hleft := spares_rule? hbrace c₁ none (congrArg Prod.fst hended) rfl (hspared brace hmem hbrace)
      rw [hended, hend] at hleft
      obtain rfl := List.mem_singleton.1 hleft
      exact Kind.noConfusion (hbrace.symm.trans he)
    have hall : t :: (ts ++ [brace, e]) = (t :: ts) ++ [brace, e] := rfl
    obtain rfl := eq_singleton_of_suffix hus.ne_nil hnone (hall ▸ hsuffix)
    exact hbody

end Gatehouse.Rego
