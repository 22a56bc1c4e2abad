import Mathlib.Data.List.Forall2
import Gatehouse.Proofs.Rego.Layout

/-!
# Texts up to a line break

What a text means does not depend on what is behind the line break that ends it.

1. **Pieces** (`exists_rest_of_piece`).  No piece goes on from the text into the next line but a string, and a string
   that does needs a quote there.
2. **Tokens** (`HasTokens`, `exists_hasTokens`).  A text that is read somewhere, with a line break behind it, has
   the same tokens wherever it stands, up to their places.
3. **Braces and brackets** (`exists_inBraces`, `exists_inBrackets`).  So a body has the same tokens in the braces of a
   rule and in the brackets of a comprehension.
-/

namespace Gatehouse.Rego

open Gatehouse.Text

/-! ## Pieces -/

variable {location location' : Location} {spaced spaced' : Bool} {body rest rest' lexeme : List Char} {kind : Kind}

/-- A string ends with a quote. -/
theorem Spells.exists_quote {value : String} (h : Spells (.string value) lexeme) :
    ∃ cs q, lexeme = cs ++ [q] ∧ isQuote q = true := by
  cases h with
  | quoted => exact ⟨_ :: _, '"', rfl, by decide⟩
  | raw => exact ⟨_ :: _, rawQuote, rfl, by decide⟩

/-- Unless it is a string, a token with a line break in it is that line break. -/
theorem Spells.eq_line (h : Spells kind lexeme) (hline : '\n' ∈ lexeme) :
    (∃ value, kind = .string value) ∨ lexeme = ['\n'] := by
  rcases h.cases_gap with ⟨hvalue, -⟩ | ⟨-, hnewline⟩ | ⟨hgap, -⟩
  · exact .inl hvalue
  · exact .inr hnewline
  · exact absurd (hgap _ hline) (by decide)

/-- No piece goes on from a text into the next line, if there is no quote on that line. -/
theorem exists_rest_of_piece {c : Char} {cs : List Char} {p : Piece Kind} (hquote : ∀ c ∈ rest, isQuote c = false)
    (h : piece location c (cs ++ '\n' :: rest) = .ok p) :
    ∃ behind, c :: cs = p.lexeme ++ behind ∧ p.rest = behind ++ '\n' :: rest := by
  obtain ⟨hspells, htrivia⟩ := piece_spells h
  obtain ⟨kind, lexeme, after⟩ := p
  have happ : lexeme ++ after = (c :: cs) ++ '\n' :: rest := (piece_append h).1
  rcases List.append_eq_append_iff.1 happ with ⟨behind, htext, hafter⟩ | ⟨beyond, hlexeme, hrest⟩
  · exact ⟨behind, htext, hafter⟩
  · cases beyond with
    | nil => exact ⟨[], by simpa using hlexeme.symm, hrest.symm⟩
    | cons d beyond =>
      obtain ⟨rfl, hbeyond⟩ := List.cons.inj hrest
      have hline : '\n' ∈ lexeme := by simp [hlexeme]
      have hlong : lexeme ≠ ['\n'] := fun hsame => by simpa [hsame] using congrArg List.length hlexeme
      exfalso
      cases kind with
      | none =>
        cases htrivia rfl with
        | blank => simp at hlexeme
        | comment hcs => simp [hcs] at hline
      | some kind =>
        obtain ⟨value, rfl⟩ := ((hspells kind rfl).eq_line hline).resolve_right hlong
        obtain ⟨ds, q, hlast, hq⟩ := (hspells _ rfl).exists_quote
        have hmem : q ∈ '\n' :: beyond := by
          have hends := congrArg List.getLast? (hlast.symm.trans hlexeme)
          simp only [List.getLast?_append, List.getLast?_singleton, Option.some_or] at hends
          exact List.mem_of_getLast? (by simpa using hends.symm)
        rcases List.mem_cons.1 hmem with rfl | hmem
        · exact absurd hq (by decide)
        · have hnone := hquote q (hbeyond ▸ List.mem_append_left after hmem)
          rw [hq] at hnone
          cases hnone

/-- What is behind a text begins with a line break, if there is anything. -/
def StartsLine (rest : List Char) : Prop := ∀ c, rest.head? = some c → c = '\n'

theorem StartsLine.startsGap (h : StartsLine rest) : StartsGap rest := fun c hc => by rw [h c hc]; rfl

/-- What is behind the last line does not make trivia longer. -/
theorem IsTrivia.startsLine (h : IsTrivia lexeme (body ++ '\n' :: rest)) (hrest : StartsLine rest') :
    IsTrivia lexeme (body ++ rest') := by
  cases h with
  | blank hc hline => exact .blank hc hline
  | comment hcs hends =>
    cases body with
    | nil => exact .comment hcs hrest
    | cons c cs => exact .comment hcs fun d hd => hends d hd

/-- The tokens of two texts are the same up to their places. -/
abbrev AlikeTokens (ts us : List Token) : Prop := List.Forall₂ Token.Alike ts us

theorem AlikeTokens.map_kind {ts us : List Token} (h : AlikeTokens ts us) : ts.map Token.kind = us.map Token.kind := by
  induction h with
  | nil => rfl
  | cons htu _ ih => exact congrArg₂ List.cons htu.kind ih

theorem AlikeTokens.join {ts us vs : List Token} (h : AlikeTokens ts us) (h' : AlikeTokens ts vs) :
    AlikeTokens us vs := by
  induction h generalizing vs with
  | nil =>
    cases h'
    exact .nil
  | cons htu _ ih =>
    cases h' with
    | cons htv h' =>
      refine .cons ⟨htu.kind.symm.trans htv.kind, fun hne => ?_⟩ (ih h')
      have hnewline := htu.kind ▸ hne
      exact (htu.spaced hnewline).symm.trans (htv.spaced hnewline)

theorem Location.after_append (l : Location) (cs ds : List Char) : l.after (cs ++ ds) = (l.after cs).after ds :=
  List.foldl_append

/-- The text has these tokens up to their places, whatever is behind its last line. -/
def HasTokens (spaced : Bool) (body : List Char) (ts : List Token) : Prop :=
  ∀ location rest, StartsLine rest → ∃ spaced' us, AlikeTokens ts us ∧
    scan location spaced (body ++ rest) = (scan (location.after body) spaced' rest).map (us ++ ·)

theorem hasTokens_nil (spaced : Bool) : HasTokens spaced [] [] := fun location rest _ => by
  refine ⟨spaced, [], .nil, ?_⟩
  show scan location spaced rest = (scan location spaced rest).map ([] ++ ·)
  cases scan location spaced rest <;> rfl

/-- A piece that means nothing. -/
theorem HasTokens.trivia {ts : List Token} (h : HasTokens true body ts)
    (htrivia : ∀ {rest}, StartsLine rest → IsTrivia lexeme (body ++ rest)) (spaced : Bool) :
    HasTokens spaced (lexeme ++ body) ts := by
  intro location rest hrest
  obtain ⟨c, cs, rfl⟩ := List.exists_cons_of_ne_nil (htrivia hrest).ne_nil
  obtain ⟨spaced', us, hus, hscan⟩ := h (location.after (c :: cs)) rest hrest
  refine ⟨spaced', us, hus, ?_⟩
  rw [List.append_assoc, List.cons_append, scan_trivia ((htrivia hrest).piece location), hscan, location.after_append]

/-- A piece that is a token. -/
theorem HasTokens.token {ts : List Token} (h : HasTokens (kind = .newline) body ts) (hspells : Spells kind lexeme)
    (hlongest : IsLongest lexeme body) (spaced : Bool) :
    HasTokens spaced (lexeme ++ body) (⟨kind, .start, spaced⟩ :: ts) := by
  intro location rest hrest
  obtain ⟨c, cs, rfl⟩ := List.exists_cons_of_ne_nil hspells.ne_nil
  obtain ⟨spaced', us, hus, hscan⟩ := h (location.after (c :: cs)) rest hrest
  refine ⟨spaced', ⟨kind, location, spaced⟩ :: us, .cons ⟨rfl, fun _ => rfl⟩ hus, ?_⟩
  have hpiece := piece_of_isLongest hspells (hlongest.append_gap hspells hrest.startsGap) location
  rw [List.append_assoc, List.cons_append, scan_token hpiece, hscan, location.after_append]
  exact map_map_append _ [_] us

/-- **A text that is read in its place has its tokens there from itself alone.** -/
theorem exists_hasTokens {tokens : List Token} (hquote : ∀ c ∈ rest, isQuote c = false)
    (h : scan location' spaced' (body ++ '\n' :: rest) = .ok tokens) (spaced : Bool) :
    ∃ ts, HasTokens spaced body ts := by
  induction hlength : body.length using Nat.strongRecOn
    generalizing body location' spaced' spaced tokens with
  | ind length ih =>
    cases body with
    | nil => exact ⟨[], hasTokens_nil spaced⟩
    | cons c cs =>
      cases hpiece : piece location' c (cs ++ '\n' :: rest) with
      | error e => cases (scan_error hpiece).symm.trans h
      | ok p =>
        obtain ⟨hspells, htrivia⟩ := piece_spells hpiece
        obtain ⟨-, hne⟩ := piece_append hpiece
        obtain ⟨_, _, _, hscan⟩ := exists_scan_rest hpiece h
        obtain ⟨behind, htext, hrest⟩ := exists_rest_of_piece hquote hpiece
        have hlongest := isLongest_of_piece hpiece
        rw [hrest] at hscan htrivia hlongest
        have hshort : behind.length < length := by
          have hpos := List.length_pos_iff.2 hne
          have hsame := congrArg List.length htext
          rw [List.length_append] at hsame
          omega
        rw [htext]
        cases hkind : p.kind with
        | none =>
          obtain ⟨ts, hts⟩ := ih _ hshort hscan true rfl
          exact ⟨ts, hts.trivia (htrivia hkind).startsLine spaced⟩
        | some kind =>
          obtain ⟨ts, hts⟩ := ih _ hshort hscan (kind = .newline) rfl
          exact ⟨_, hts.token (hspells kind hkind) hlongest.cut spaced⟩

/-! ## Bodies in braces and in brackets -/

theorem exists_of_map {ε : Type} {result : Except ε (List Token)} {f : List Token → List Token} {tokens : List Token}
    (h : result.map f = .ok tokens) : ∃ us, result = .ok us ∧ tokens = f us := by
  cases result with
  | error e => cases h
  | ok us => exact ⟨us, rfl, (Except.ok.inj h).symm⟩

/-- There is no bar among the tokens of the text. -/
def HasNoBar (body : String) : Prop :=
  ∃ tokens, tokenize body = .ok tokens ∧ Kind.symbol .pipe ∉ tokens.map Token.kind

theorem HasNoBar.not_mem {body : String} {ts : List Token} (h : HasNoBar body) (hts : HasTokens true body.toList ts) :
    Kind.symbol .pipe ∉ ts.map Token.kind := by
  obtain ⟨tokens, htokens, hbar⟩ := h
  obtain ⟨spaced, us, hus, hscan⟩ := hts .start [] nofun
  rw [List.append_nil] at hscan
  obtain ⟨last, -, rfl⟩ := exists_of_map (hscan.symm.trans htokens)
  rw [hus.map_kind]
  exact fun hmem => hbar (by simp [List.map_append, hmem])

theorem piece_lbrace (location : Location) (cs : List Char) :
    piece location '\x7b' cs = .ok ⟨some (.symbol .lbrace), ['\x7b'], cs⟩ := by
  cases cs <;> rfl

theorem piece_lbracket (location : Location) (cs : List Char) :
    piece location '[' cs = .ok ⟨some (.symbol .lbracket), ['['], cs⟩ := by
  cases cs <;> rfl

theorem piece_rbracket (location : Location) (cs : List Char) :
    piece location ']' cs = .ok ⟨some (.symbol .rbracket), [']'], cs⟩ := by
  cases cs <;> rfl

theorem piece_pipe (location : Location) (cs : List Char) :
    piece location '|' cs = .ok ⟨some (.symbol .pipe), ['|'], cs⟩ := by
  cases cs <;> rfl

theorem piece_line (location : Location) (cs : List Char) :
    piece location '\n' cs = .ok ⟨some .newline, ['\n'], cs⟩ := rfl

/-- The tokens of a body in braces. -/
structure InBraces (ts tokens : List Token) : Prop where
  split : ∃ o us nl r last, tokens = o :: (us ++ [nl, r, last]) ∧ AlikeTokens ts us ∧ o.kind = .symbol .lbrace ∧
    nl.kind = .newline ∧ r.kind = .symbol .rbrace ∧ last.kind = .endOfInput

theorem exists_inBraces {body : String} {tokens : List Token}
    (h : scan location spaced ("\x7b " ++ body ++ "\n\x7d").toList = .ok tokens) :
    ∃ ts, HasTokens true body.toList ts ∧ InBraces ts tokens := by
  have htext : ("\x7b " ++ body ++ "\n\x7d").toList = '\x7b' :: ' ' :: (body.toList ++ ['\n', '\x7d']) := by
    simp
  have hblank : isBlank ' ' = true ∧ ' ' ≠ '\n' := by decide
  rw [htext, scan_token (piece_lbrace ..), scan_blank hblank.1 hblank.2] at h
  obtain ⟨inside, hinside, rfl⟩ := exists_of_map h
  obtain ⟨ts, hts⟩ := exists_hasTokens (fun c hc => List.mem_singleton.1 hc ▸ by decide) hinside true
  obtain ⟨spaced, us, hus, hscan⟩ := hts _ ['\n', '\x7d'] fun c hc => (Option.some.inj hc).symm
  rw [hscan] at hinside
  obtain ⟨behind, hbehind, rfl⟩ := exists_of_map hinside
  have hrbrace : ∀ location, piece location '\x7d' [] = .ok ⟨some (.symbol .rbrace), ['\x7d'], []⟩ := fun _ => rfl
  rw [scan_token (piece_line ..)] at hbehind
  obtain ⟨line, hline, rfl⟩ := exists_of_map hbehind
  rw [scan_token (hrbrace _)] at hline
  obtain ⟨brace, hbrace, rfl⟩ := exists_of_map hline
  rw [scan] at hbrace
  obtain rfl := Except.ok.inj hbrace
  exact ⟨ts, hts, _, us, _, _, _, rfl, hus, rfl, rfl, rfl, rfl⟩

/-- A comprehension with a variable before its bar. -/
def comprehension (x body : String) : String := "[" ++ x ++ " | " ++ body ++ "\n]"

/-- The tokens of such a comprehension. -/
structure InBrackets (x : String) (ts tokens behind : List Token) : Prop where
  split : ∃ o v bar us nl r, tokens = o :: v :: bar :: (us ++ nl :: r :: behind) ∧ AlikeTokens ts us ∧
    o.kind = .symbol .lbracket ∧ v.kind = .name x ∧ bar.kind = .symbol .pipe ∧ nl.kind = .newline ∧
      r.kind = .symbol .rbracket

theorem exists_inBrackets {x body : String} {ts behind : List Token} {after : List Char}
    (hts : HasTokens true body.toList ts) (hx : Spells (.name x) x.toList) {location : Location}
    (hafter : scan (location.after (comprehension x body).toList) false after = .ok behind) (spaced : Bool) :
    ∃ tokens, scan location spaced ((comprehension x body).toList ++ after) = .ok tokens ∧
      InBrackets x ts tokens behind := by
  have htext : (comprehension x body).toList =
      '[' :: (x.toList ++ ' ' :: '|' :: ' ' :: (body.toList ++ ['\n', ']'])) := by
    simp [comprehension]
  have hblank : isBlank ' ' = true ∧ ' ' ≠ '\n' := by decide
  let start := (((location.after ['[']).after x.toList).after [' ']).after ['|'] |>.after [' ']
  obtain ⟨spaced', us, hus, hscan⟩ := hts start ('\n' :: ']' :: after) fun c hc => (Option.some.inj hc).symm
  have hend : scan (((start.after body.toList).after ['\n']).after [']']) false after = .ok behind := by
    rw [← hafter, htext]
    simp [start, Location.after]
  let nl : Token := ⟨.newline, start.after body.toList, spaced'⟩
  let r : Token := ⟨.symbol .rbracket, (start.after body.toList).after ['\n'], true⟩
  have hbody : scan start true (body.toList ++ '\n' :: ']' :: after) = .ok (us ++ nl :: r :: behind) := by
    rw [hscan, scan_token (piece_line ..), decide_eq_true rfl, scan_token (piece_rbracket ..),
      decide_eq_false Kind.noConfusion, hend]
    rfl
  let o : Token := ⟨.symbol .lbracket, location, spaced⟩
  let v : Token := ⟨.name x, location.after ['['], false⟩
  let bar : Token := ⟨.symbol .pipe, ((location.after ['[']).after x.toList).after [' '], true⟩
  refine ⟨o :: v :: bar :: (us ++ nl :: r :: behind), ?_, ⟨o, v, bar, us, nl, r, rfl, hus, rfl, rfl, rfl, rfl, rfl⟩⟩
  rw [htext]
  simp only [List.cons_append, List.append_assoc, List.nil_append]
  rw [scan_token (piece_lbracket ..), decide_eq_false Kind.noConfusion, scan_word hx (startsGap_cons (by decide) _),
    scan_blank hblank.1 hblank.2, scan_token (piece_pipe ..), scan_blank hblank.1 hblank.2, hbody]
  rfl

end Gatehouse.Rego
