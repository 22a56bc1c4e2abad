import Gatehouse.Proofs.Rego.Grammar
import Gatehouse.Proofs.Rego.Lexemes

/-!
# Reading the whole of a source

1. **The tokens of a source are closed** (`isClosed_of_tokenize`), so the lemmas on steady parsers apply.
2. **The last loop** is the one over the rules, and it leaves only at the end of the input
   (`leaves_module`).  So whatever is not part of the module is complained about.
3. **Rules and rounds** (`IsRule`, `IsRound`).  The parsers of the grammar, and the steps of its loops.
-/

namespace Gatehouse.Rego

open Gatehouse.Rego.Parser

/-! ## The tokens of a source -/

theorem Spells.ne_endOfInput {kind : Kind} {lexeme : List Char} (h : Spells kind lexeme) :
    kind ≠ .endOfInput := by
  cases h <;> exact Kind.noConfusion

theorem IsSplit.ne_endOfInput {stretches : List Stretch} {rest : List Char} (h : IsSplit stretches rest) :
    ∀ t ∈ tokensOf stretches, t.kind ≠ .endOfInput := by
  intro t ht
  obtain ⟨_, _, _, -, hspells, -⟩ := h.exists_stretch ht
  exact hspells.ne_endOfInput

theorem exists_last_of_tokenize {source : String} {tokens : List Token} (h : tokenize source = .ok tokens) :
    ∃ before last, tokens = before ++ [last] ∧ last.kind = .endOfInput ∧
      ∀ t ∈ before, t.kind ≠ .endOfInput := by
  obtain ⟨stretches, last, -, hsplit, rfl, hlast, -⟩ := isTokenization_of_tokenize h
  exact ⟨_, last, rfl, hlast, hsplit.ne_endOfInput⟩

/-! ## The end of a module -/

/-- The cursor is at the end of the input. -/
def Cursor.IsAtEnd (c : Cursor) : Prop := ∃ t, c.ahead.head? = some t ∧ t.kind = .endOfInput

theorem leaves_atEnd : Leaves atEnd fun ended c => ended = true → c.IsAtEnd :=
  leaves_peek.map fun t _ ht hended => ⟨t, ht, of_decide_eq_true hended⟩

/-- The loop over the rules is left at the end only. -/
theorem leaves_rule? : Leaves rule? fun r c => r = none → c.IsAtEnd := by
  refine .bind fun _ => .bind fun _ => leaves_atEnd.andThen fun ended c r hended hr hnone => ?_
  cases ended with
  | true => exact hended rfl
  | false =>
    have hsome : Leaves (do return some (← rule)) fun r _ => r ≠ none := .bind fun _ _ _ hdone =>
      Outcome.done.inj hdone ▸ nofun
    exact absurd hnone (hsome c r hr)

theorem leaves_module : Leaves module fun _ => Cursor.IsAtEnd := by
  refine .bind fun _ => .bind fun found => ?_
  cases found with
  | false => exact fun _ _ => nofun
  | true => exact .bind fun package => .bind fun imports => leaves_rule?.many.map fun _ _ => id

/-! ## Rules and rounds -/

/-- The rounds of the loops of the grammar, with `n` levels to spare. -/
inductive IsRound : Nat → {α : Type} → Parser (Option α) → Prop
  /-- One more operator, in a loop that admits those of a precedence of `least` and above. -/
  | operator (n : Nat) {levels least : Nat} (h : 7 ≤ levels + least) (left : Term) :
    IsRound n (joinStep (binaryUpTo (inner n).term levels) least left)
  /-- One more access, index or call. -/
  | access (n : Nat) (t : Term) : IsRound n (postfixStep (inner n) t)
  /-- One more argument, element or pair. -/
  | argument (n : Nat) : IsRound n (afterComma .rparen (expression (inner n)))
  | element (n : Nat) (close : Symbol) : IsRound n (afterComma close (element (inner n)))
  | pair (n : Nat) : IsRound n (afterComma .rbrace (pair (inner n)))
  | declared (n : Nat) : IsRound n (afterCommaOperand (inner n))
  | replacement (n : Nat) : IsRound n (replacement (inner n))
  /-- One more expression of a body. -/
  | expr (n : Nat) (close : Symbol) : IsRound n (bodyStep (inner n) close)
  | block : IsRound maxNesting anotherBlock
  | alternative : IsRound maxNesting alternative
  | segment : IsRound maxNesting segment
  | imported : IsRound maxNesting import?
  | semicolon : IsRound maxNesting semicolon
  | rule : IsRound maxNesting rule?

/-- The parsers of the grammar, with `n` levels to spare. -/
inductive IsRule : Nat → {α : Type} → Parser α → Prop
  | next (n : Nat) : IsRule n peek
  | advance (n : Nat) : IsRule n advance
  | takeSymbol (n : Nat) (s : Symbol) : IsRule n (takeSymbol s)
  | takeTight (n : Nat) (s : Symbol) : IsRule n (takeIf (atTight s))
  | takeWord (n : Nat) (word : String) : IsRule n (takeWord word)
  | expectSymbol (n : Nat) (s : Symbol) : IsRule n (expectSymbol s)
  | expectWord (n : Nat) (word : String) : IsRule n (expectWord word)
  | expectName (n : Nat) (test : String → Bool) (expected : String) : IsRule n (expectName test expected)
  | operator (n : Nat) : IsRule n operator
  | binary (n : Nat) {least : Nat} (h : least ≤ 7) : IsRule n (binary (inner n) least)
  | arguments (n : Nat) : IsRule n (arguments (inner n))
  | declaration (n : Nat) : IsRule n (declaration (inner n))
  | iteration (n : Nat) : IsRule n (iteration (inner n))
  | quantification (n : Nat) : IsRule n (quantification (inner n))
  | literal (n : Nat) : IsRule n (literal (inner n))
  | query (n : Nat) (close : Symbol) : IsRule n (query (inner n) close)
  | block (n : Nat) : IsRule n (block (inner n))
  | accessed (n : Nat) (t : Term) : IsRule n (accessed (inner n) t)
  | element (n : Nat) : IsRule n (element (inner n))
  | bracketed (n : Nat) : IsRule n (bracketed (inner n))
  | pair (n : Nat) : IsRule n (pair (inner n))
  | braced (n : Nat) : IsRule n (braced (inner n))
  | named (n : Nat) (name : String) : IsRule n (named (inner n) name)
  | primary (n : Nat) : IsRule n (primary (inner n))
  | term (n : Nat) : IsRule n (inner n).term
  | body (n : Nat) : IsRule n (inner n).body
  | signature : IsRule maxNesting signature
  | valueClause : IsRule maxNesting valueClause
  | head : IsRule maxNesting head
  | ifBody : IsRule maxNesting ifBody
  | bodies : IsRule maxNesting bodies
  | rule : IsRule maxNesting rule
  | package : IsRule maxNesting package
  | module : IsRule maxNesting module
  | round {n : Nat} {α : Type} {step : Parser (Option α)} (h : IsRound n step) : IsRule n step

theorem IsRound.steady {n : Nat} {α : Type} {step : Parser (Option α)} (h : IsRound n step) :
    Steady n step (·.isSome = true) := by
  have hinner : ∀ n, (inner n).IsSteady n := isSteady_inner
  cases h with
  | @operator n levels least hlevels left =>
    refine steady_joinStep (fun op hop => ?_) left
    have htight := op.precedence_le
    exact steady_binaryUpTo (hinner n).term (by omega) (by omega)
  | access n t => exact steady_postfixStep (hinner n) t
  | argument => exact steady_afterComma (steady_expression (hinner n)).forget
  | element n close => exact steady_afterComma (steady_element (hinner n)).forget
  | pair => exact steady_afterComma (steady_pair (hinner n)).forget
  | declared => exact steady_afterCommaOperand (hinner n)
  | replacement => exact steady_replacement (hinner n)
  | expr n close => exact steady_bodyStep (hinner n) close
  | block => exact steady_anotherBlock
  | alternative => exact steady_alternative
  | segment => exact steady_segment
  | imported => exact steady_import?
  | semicolon => exact steady_semicolon
  | rule => exact steady_rule?

theorem IsRule.steady {n : Nat} {α : Type} {p : Parser α} (h : IsRule n p) : Steady n p never := by
  have hinner : ∀ n, (inner n).IsSteady n := isSteady_inner
  cases h with
  | next => exact steady_peek
  | advance => exact steady_advance
  | takeSymbol n s => exact (steady_takeSymbol s).forget
  | takeTight n s => exact (steady_takeTight s).forget
  | takeWord n word => exact (steady_takeWord word).forget
  | expectSymbol n s => exact (steady_expectSymbol s).forget
  | expectWord n word => exact (steady_expectWord word).forget
  | expectName n test expected => exact (steady_expectName test expected).forget
  | operator => exact steady_operator
  | binary n hleast => exact (steady_binary (hinner n) hleast).forget
  | arguments => exact (steady_arguments (hinner n)).forget
  | declaration => exact (steady_declaration (hinner n)).forget
  | iteration => exact (steady_iteration (hinner n)).forget
  | quantification => exact (steady_quantification (hinner n)).forget
  | literal => exact (steady_literal (hinner n)).forget
  | query n close => exact steady_query (hinner n) close
  | block => exact (steady_block (hinner n)).forget
  | accessed n t => exact steady_accessed (hinner n) t
  | element => exact (steady_element (hinner n)).forget
  | bracketed => exact steady_bracketed (hinner n)
  | pair => exact (steady_pair (hinner n)).forget
  | braced => exact steady_braced (hinner n)
  | named n name => exact steady_named (hinner n) name
  | primary => exact (steady_primary (hinner n)).forget
  | term => exact (hinner n).term.forget
  | body => exact (hinner n).body.forget
  | signature => exact steady_signature
  | valueClause => exact steady_valueClause
  | head => exact steady_head.forget
  | ifBody => exact steady_ifBody.forget
  | bodies => exact steady_bodies
  | rule => exact steady_rule.forget
  | package => exact steady_package.forget
  | module => exact steady_module.forget
  | round hround => exact hround.steady.forget

/-! ## The whole of a source -/

theorem isClosed_of_tokenize {source : String} {tokens : List Token} (h : tokenize source = .ok tokens) :
    IsClosed tokens := by
  obtain ⟨before, last, rfl, hlast, hbefore⟩ := exists_last_of_tokenize h
  exact .append hbefore (.last hlast)

theorem ofSource?_of_error {source : String} {e : SyntaxError} (h : tokenize source = .error e) :
    Module.ofSource? source = .error e := by
  rw [Module.ofSource?, h]
  rfl

theorem ofSource?_of_ok {source : String} {tokens : List Token} (h : tokenize source = .ok tokens) :
    Module.ofSource? source = (Module.parse tokens).1.toExcept := by
  rw [Module.ofSource?, h]
  rfl

/-- How the tokens of a source are read: to the last of them, if they are a module. -/
inductive Reads (tokens : List Token) (last : Token) : Except SyntaxError Module → Prop
  | module {m : Module} {after : Cursor} (h : Module.parse tokens = (.done m, after))
    (hafter : after.Follows (.start tokens)) (hend : after.ahead = [last]) : Reads tokens last (.ok m)
  | error {e : SyntaxError} {after : Cursor} (h : Module.parse tokens = (.failed e, after))
    (hafter : after.Follows (.start tokens)) : Reads tokens last (.error e)

/-- At the end of the input, the last token is all that is left. -/
theorem Cursor.IsAtEnd.ahead_eq {c : Cursor} (h : c.IsAtEnd) (hclosed : IsClosed c.ahead) {before : List Token}
    {last : Token} (hsuffix : c.ahead <:+ before ++ [last]) : c.ahead = [last] := by
  obtain ⟨t, hhead, ht⟩ := h
  obtain ⟨ts, hahead⟩ := List.head?_eq_some_iff.1 hhead
  rw [hahead] at hclosed hsuffix ⊢
  rw [hclosed.eq_nil ht] at hsuffix ⊢
  obtain ⟨front, hfront⟩ := hsuffix
  exact (List.append_inj' hfront rfl).2

theorem reads_parse {before : List Token} {last : Token} (h : IsClosed (before ++ [last])) :
    Reads (before ++ [last]) last (Module.parse (before ++ [last])).1.toExcept := by
  have hsteady := steady_module (.start (before ++ [last]))
  have hready := Cursor.isReady_start h
  cases hanswer : (Module.parse (before ++ [last])).1 with
  | done m =>
    have hend := (leaves_module _ m hanswer).ahead_eq (hsteady.closed hready) hsteady.follows.ahead
    exact .module (Prod.ext hanswer rfl) hsteady.follows hend
  | failed e => exact .error (Prod.ext hanswer rfl) hsteady.follows
  | stuck => exact absurd hanswer (hsteady.answers hready)

/-- **A source is read to its end, or complained about.**  What is said of the tokens is said of the source;
the parser is not stuck, and if it answers it has used up all tokens but the last, which is the end of the
input.  Every rule of the grammar leaves what surrounds the cursor as it was and answers or complains, and
every round of a loop that does not decline uses up a token. -/
theorem ofSource?_reads_whole (source : String) :
    (∀ e, tokenize source = .error e → Module.ofSource? source = .error e) ∧
      (∀ tokens, tokenize source = .ok tokens → ∃ before last, tokens = before ++ [last] ∧
        last.kind = .endOfInput ∧ (∀ t ∈ before, t.kind ≠ .endOfInput) ∧
          Reads tokens last (Module.ofSource? source)) ∧
      (∀ {n : Nat} {α : Type} {p : Parser α}, IsRule n p → ∀ c, (p c).2.Follows c ∧
        (c.IsReady n → (p c).1 ≠ .stuck ∧ (p c).2.IsReady n)) ∧
      ∀ {n : Nat} {α : Type} {step : Parser (Option α)}, IsRound n step → ∀ c, c.IsReady n →
        ∀ a, (step c).1 = .done (some a) → (step c).2.ahead.length < c.ahead.length := by
  refine ⟨fun e => ofSource?_of_error, fun tokens h => ?_, fun hrule c => ?_, fun hround c hc a ha => ?_⟩
  · obtain ⟨before, last, rfl, hlast, hbefore⟩ := exists_last_of_tokenize h
    refine ⟨before, last, rfl, hlast, hbefore, ?_⟩
    rw [ofSource?_of_ok h]
    exact reads_parse (isClosed_of_tokenize h)
  · have hp := hrule.steady c
    exact ⟨hp.follows, fun hc => ⟨hp.answers hc, hp.ready hc⟩⟩
  · exact (hround.steady c).shorter hc (some a) ha rfl

/-- A segment of a package, and the end of the input behind it. -/
def segmentTokens : List Token :=
  [⟨.symbol .dot, ⟨1, 10⟩, false⟩, ⟨.name "b", ⟨1, 11⟩, false⟩, ⟨.endOfInput, ⟨1, 12⟩, false⟩]

theorem ofSource?_reads_whole_package :
    let source := "package a.b\nv[x] \x7b y := [z | z := \x7b1, 2\x7d] \x7d\n"
    (∃ e, tokenize "\"" = .error e ∧ Module.ofSource? "\"" = .error e) ∧
      (∃ tokens last m after, tokenize source = .ok tokens ∧ Module.ofSource? source = .ok m ∧
        Module.parse tokens = (.done m, after) ∧ after.ahead = [last]) ∧
      ((module (.start segmentTokens)).2.Follows (.start segmentTokens) ∧
        (Cursor.start segmentTokens).IsReady maxNesting ∧ (module (.start segmentTokens)).1 ≠ .stuck) ∧
      (segment (.start segmentTokens)).1 = .done (some "b") ∧
        (segment (.start segmentTokens)).2.ahead.length < 3 := by
  intro source
  have hclosed : IsClosed segmentTokens :=
    .cons Kind.noConfusion (.cons Kind.noConfusion (.last rfl))
  have hready := Cursor.isReady_start hclosed
  have hsegment : (segment (.start segmentTokens)).1 = .done (some "b") := rfl
  have hread : (Module.ofSource? source).toOption.isSome = true := by decide +kernel
  have hbroken : (tokenize "\"").toOption.isNone = true := by decide +kernel
  obtain ⟨e, he⟩ : ∃ e, tokenize "\"" = .error e := by
    cases h : tokenize "\"" with
    | error e => exact ⟨e, rfl⟩
    | ok tokens =>
      rw [h] at hbroken
      cases hbroken
  obtain ⟨herror, -, hrule, hround⟩ := ofSource?_reads_whole "\""
  obtain ⟨hrejected, hread_ok, -, -⟩ := ofSource?_reads_whole source
  refine ⟨⟨e, he, herror e he⟩, ?_, ⟨(hrule .module _).1, hready, ((hrule .module _).2 hready).1⟩, hsegment,
    hround .segment _ hready "b" hsegment⟩
  cases htokens : tokenize source with
  | error e =>
    rw [hrejected e htokens] at hread
    cases hread
  | ok tokens =>
    obtain ⟨_, last, -, -, -, hreads⟩ := hread_ok tokens htokens
    cases hm : Module.ofSource? source with
    | error e =>
      rw [hm] at hread
      cases hread
    | ok m =>
      rw [hm] at hreads
      cases hreads with
      | module hparse hafter hend => exact ⟨tokens, last, m, _, rfl, rfl, hparse, hend⟩

end Gatehouse.Rego
