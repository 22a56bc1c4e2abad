import Mathlib.Data.List.TakeWhile
import Gatehouse.Rego.Token.Lexer

/-!
# Tokens are stretches of their source

A source is cut into stretches that lie side by side: each is a token or means nothing between tokens.

1. **Spelling** (`Spells`, `IsTrivia`).  How each kind of token may be written, and what means nothing.
   Neither mentions the lexer.
2. **The crux** (`Spells.piece`).  Where a token is spelled, the lexer's piece is a token too and begins with
   it.  Pieces are spelled as their kinds say, so the piece is the longest that is spelled at its place, and
   the lexer gets stuck only where nothing is spelled.
3. **Splits** (`IsSplit`).  Every stretch is spelled as its token says, is the longest at its place, and its
   token knows the place and whether it stands apart.  The lexer keeps a place and a flag as it goes; the
   statement counts line breaks and looks at the stretches before.
4. **Both ways** (`scan_stretches`, `exists_split`).  Stretches that fit are what is scanned, and every text
   splits up to its end or up to a place where nothing starts.
-/

namespace Gatehouse.Rego

open Gatehouse.Text

variable {location : Location} {c : Char} {cs rest lexeme : List Char} {p : Piece Kind} {kind : Kind}

/-! ## Strings -/

/-- How a text may be written between double quotes: the text, and its characters as they are written. -/
inductive Quotes : List Char → List Char → Prop
  | nil : Quotes [] []
  | plain {c : Char} {value text : List Char} (hquote : c ≠ '"') (hslash : c ≠ '\\') (hline : c ≠ '\n')
      (h : Quotes value text) : Quotes (c :: value) (c :: text)
  | escape {e : Char} {value text : List Char} (he : e ≠ 'u') (h : Quotes value text) :
      Quotes (unescape e :: value) ('\\' :: e :: text)
  | unit {a b c d : Char} {n : Nat} {value text : List Char} (hn : hex4? a b c d = some n)
      (h : Quotes value text) : Quotes (ofUnit n :: value) ('\\' :: 'u' :: a :: b :: c :: d :: text)

theorem quotedBody_of_quotes {value text : List Char} (h : Quotes value text) (rest : List Char) :
    quotedBody (text ++ '"' :: rest) = some (value, text ++ ['"'], rest) := by
  induction h with
  | nil => simp [quotedBody]
  | @plain c value text hquote hslash hline h ih =>
    rw [List.cons_append, quotedBody]
    · simp [hline, hslash, ih]
    · simpa using hquote
    · simp [hslash]
    · simp [hslash]
  | @escape e value text he h ih =>
    rw [List.cons_append, List.cons_append, quotedBody]
    · simp [he, ih]
    · simp [he]
  | @unit a b c d n value text hn h ih =>
    simp [quotedBody, hn, ih]

theorem quotes_of_quotedBody {value : List Char} (h : quotedBody cs = some (value, lexeme, rest)) :
    ∃ text, Quotes value text ∧ lexeme = text ++ ['"'] ∧ cs = text ++ '"' :: rest := by
  fun_induction quotedBody cs generalizing value lexeme rest with
  | case1 => simp at h
  | case2 cs =>
    simp at h
    obtain ⟨rfl, rfl, rfl⟩ := h
    exact ⟨[], .nil, rfl, rfl⟩
  | case3 a b c d cs ih =>
    simp only [Option.bind_eq_bind, Option.bind_eq_some_iff] at h
    obtain ⟨n, hn, ⟨v, l, r⟩, hq, he⟩ := h
    simp at he
    obtain ⟨rfl, rfl, rfl⟩ := he
    obtain ⟨text, hv, rfl, rfl⟩ := ih hq
    exact ⟨_, .unit hn hv, rfl, rfl⟩
  | case4 => simp at h
  | case5 e cs _ he ih =>
    simp only [Option.bind_eq_bind, Option.bind_eq_some_iff] at h
    obtain ⟨⟨v, l, r⟩, hq, heq⟩ := h
    simp at heq
    obtain ⟨rfl, rfl, rfl⟩ := heq
    obtain ⟨text, hv, rfl, rfl⟩ := ih hq
    exact ⟨_, .escape he hv, rfl, rfl⟩
  | case6 => simp at h
  | case7 c cs hquote _ _ hc ih =>
    simp only [Option.bind_eq_bind, Option.bind_eq_some_iff] at h
    obtain ⟨⟨v, l, r⟩, hq, he⟩ := h
    simp at he
    obtain ⟨rfl, rfl, rfl⟩ := he
    obtain ⟨text, hv, rfl, rfl⟩ := ih hq
    simp at hc
    exact ⟨_, .plain hquote hc.2 hc.1 hv, rfl, rfl⟩

theorem rawBody_eq_some_iff {value : List Char} :
    rawBody cs = some (value, rest) ↔ cs = value ++ rawQuote :: rest ∧ rawQuote ∉ value := by
  constructor
  · intro h
    refine ⟨(rawBody_append h).symm, ?_⟩
    fun_induction rawBody cs generalizing value rest with
    | case1 => simp at h
    | case2 =>
      simp at h
      simp [h]
    | case3 c cs hc ih =>
      simp only [Option.bind_eq_bind, Option.bind_eq_some_iff] at h
      obtain ⟨⟨v, r⟩, hq, he⟩ := h
      simp at he
      simp [← he.1, ih hq, Ne.symm hc]
  · rintro ⟨rfl, h⟩
    induction value with
    | nil => simp [rawBody]
    | cons c value ih =>
      simp only [List.mem_cons, not_or] at h
      simp [rawBody, Ne.symm h.1, ih h.2]

/-! ## Numbers -/

/-- What may follow the first digit of a number, given whether it has its point and its exponent.  A point
has a digit behind it; behind the mark of an exponent there may be none. -/
inductive NumberRest : Bool → Bool → List Char → Prop
  | nil {p x : Bool} : NumberRest p x []
  | digit {p x : Bool} {d : Char} {cs : List Char} (hd : d.isDigit = true) (h : NumberRest p x cs) :
      NumberRest p x (d :: cs)
  | point {d : Char} {cs : List Char} (hd : d.isDigit = true) (h : NumberRest true false (d :: cs)) :
      NumberRest false false ('.' :: d :: cs)
  | exponent {p : Bool} {e : Char} {cs : List Char} (he : e = 'e' ∨ e = 'E') (h : NumberRest p true cs) :
      NumberRest p false (e :: cs)
  | signed {p : Bool} {e s : Char} {cs : List Char} (he : e = 'e' ∨ e = 'E') (hs : s = '+' ∨ s = '-')
      (h : NumberRest p true cs) : NumberRest p false (e :: s :: cs)

theorem numberRest_numberTail (p x : Bool) (cs : List Char) : NumberRest p x (numberTail p x cs).1 := by
  fun_induction numberTail p x cs with
  | case1 => exact .nil
  | case2 p x c cs hc lexeme rest heq ih =>
    rw [heq] at ih
    exact .digit hc ih
  | case3 p x c cs hc hpoint lexeme rest heq ih =>
    simp only [Bool.and_eq_true, decide_eq_true_eq, Bool.not_eq_true', Option.any_eq_true] at hpoint
    obtain ⟨⟨⟨rfl, rfl⟩, rfl⟩, d, hd, hdigit⟩ := hpoint
    obtain ⟨ds, rfl⟩ := List.head?_eq_some_iff.1 hd
    have hlexeme : (numberTail true false (d :: ds)).1 = d :: (numberTail true false ds).1 := by
      rw [numberTail.eq_def]
      simp [hdigit]
    rw [hlexeme] at ih
    rw [heq] at hlexeme
    subst hlexeme
    exact .point hdigit ih
  | case4 p x c hc hmark =>
    simp at hmark
    rw [hmark.2]
    exact .exponent hmark.1 .nil
  | case5 p x c hc hmark s cs hs lexeme rest heq _ ih =>
    simp at hmark hs
    rw [hmark.2]
    rw [heq] at ih
    exact .signed hmark.1 hs ih
  | case6 p x c hc hmark s cs hs lexeme rest heq _ ih =>
    simp at hmark
    rw [hmark.2]
    rw [heq] at ih
    exact .exponent hmark.1 ih
  | case7 => exact .nil

/-- The lexer takes no less than what may follow. -/
theorem NumberRest.isPrefix {p x : Bool} (h : NumberRest p x cs) (rest : List Char) :
    cs <+: (numberTail p x (cs ++ rest)).1 := by
  induction h with
  | nil => exact ⟨_, rfl⟩
  | @digit p x d cs hd _ ih =>
    rw [List.cons_append, numberTail.eq_def]
    simp [hd, ih]
  | @point d cs hd _ ih =>
    rw [List.cons_append, numberTail.eq_def]
    simpa [hd] using ih
  | @exponent p e cs he h ih =>
    rw [List.cons_append, numberTail.eq_def]
    cases h with
    | nil => rcases he with rfl | rfl <;> cases rest <;> simp <;> split <;> simp
    | @digit _ _ d _ hd h =>
      -- a digit is no sign, so the mark stands alone
      have hsign : ¬(d = '+' ∨ d = '-') := by rintro (rfl | rfl) <;> cases hd
      rcases he with rfl | rfl <;> simpa [hsign] using ih
  | @signed p e s cs he hs _ ih =>
    rw [List.cons_append, numberTail.eq_def]
    rcases he with rfl | rfl <;> simpa [hs] using ih

/-! ## Symbols -/

/-- A character that starts symbols, and nothing else. -/
def isMark (c : Char) : Bool :=
  !(c = '\n') && !isBlank c && !(c = '#') && !(c = '"') && !(c = rawQuote) && !c.isDigit && !isNameStart c

theorem Symbol.text_eq_cons (s : Symbol) : ∃ c cs, s.text.toList = c :: cs ∧ isMark c = true := by
  cases s <;> exact ⟨_, _, rfl, by decide⟩

/-- A symbol is found by its one or two characters. -/
theorem Symbol.found (s : Symbol) :
    (∃ c, s.text.toList = [c] ∧ symbolChar? c = some s) ∨
      ∃ c d, s.text.toList = [c, d] ∧ symbolPair? c d = some s := by
  cases s <;> first | exact .inl ⟨_, rfl, rfl⟩ | exact .inr ⟨_, _, rfl, rfl⟩

theorem Symbol.text_injective {s t : Symbol} (h : s.text.toList = t.text.toList) : s = t := by
  rcases s.found with ⟨a, ha, hs⟩ | ⟨a, b, hab, hs⟩ <;> rcases t.found with ⟨c, hc, ht⟩ | ⟨c, d, hcd, ht⟩
  all_goals simp_all

theorem text_of_symbolChar? {s : Symbol} (h : symbolChar? c = some s) : s.text.toList = [c] := by
  unfold symbolChar? at h
  split at h <;> cases h <;> rfl

theorem text_of_symbolPair? {d : Char} {s : Symbol} (h : symbolPair? c d = some s) :
    s.text.toList = [c, d] := by
  unfold symbolPair? at h
  split at h <;> cases h <;> rfl

/-- The piece is a symbol, and no longer one is written there. -/
theorem symbolPiece?_some (h : symbolPiece? c cs = some p) :
    ∃ s : Symbol, p.kind = some (.symbol s) ∧ p.lexeme = s.text.toList ∧
      ∀ other : Symbol, other.text.toList <+: c :: cs → other.text.toList.length ≤ p.lexeme.length := by
  have hchar : ∀ s, symbolChar? c = some s → (∀ d ds, cs = d :: ds → symbolPair? c d = none) →
      ∀ other : Symbol, other.text.toList <+: c :: cs → other.text.toList.length ≤ 1 := by
    intro s hs hpair other hother
    rcases other.found with ⟨a, ha, -⟩ | ⟨a, b, hab, hfound⟩
    · simp [ha]
    · rw [hab] at hother
      obtain ⟨ds, hds⟩ := hother
      cases hds
      rw [hpair _ _ rfl] at hfound
      cases hfound
  unfold symbolPiece? at h
  split at h
  · split at h
    · rename_i hs
      obtain rfl := Option.some.inj h
      refine ⟨_, rfl, (text_of_symbolPair? hs).symm, fun other _ => ?_⟩
      rcases other.found with ⟨a, ha, -⟩ | ⟨a, b, hab, -⟩ <;> simp [*]
    · rename_i hpair
      obtain ⟨s, hs, rfl⟩ := Option.map_eq_some_iff.1 h
      refine ⟨s, rfl, (text_of_symbolChar? hs).symm, hchar s hs fun d ds hcs => ?_⟩
      cases hcs
      exact hpair
  · obtain ⟨s, hs, rfl⟩ := Option.map_eq_some_iff.1 h
    exact ⟨s, rfl, (text_of_symbolChar? hs).symm, hchar s hs fun d ds hcs => nomatch hcs⟩

theorem not_prefix_of_symbolPiece? (h : symbolPiece? c cs = none) (s : Symbol) :
    ¬s.text.toList <+: c :: cs := by
  rintro ⟨rest, hrest⟩
  rcases s.found with ⟨a, ha, hs⟩ | ⟨a, b, hab, hs⟩
  · rw [ha] at hrest
    obtain ⟨rfl, rfl⟩ := List.cons.inj hrest
    cases rest with
    | nil => simp [symbolPiece?, hs] at h
    | cons d ds =>
      change symbolPiece? a (d :: ds) = none at h
      simp only [symbolPiece?] at h
      split at h
      · cases h
      · simp [hs] at h
  · rw [hab] at hrest
    cases hrest
    simp [symbolPiece?, hs] at h

/-! ## Spelling -/

/-- The characters that a token of a kind may be written with.  The end of the input is written with none,
and is no stretch. -/
inductive Spells : Kind → List Char → Prop
  | name {c : Char} {cs : List Char} (hc : isNameStart c = true) (hcs : ∀ d ∈ cs, isNamePart d = true) :
      Spells (.name (String.ofList (c :: cs))) (c :: cs)
  | number {c : Char} {cs : List Char} (hc : c.isDigit = true) (hcs : NumberRest false false cs) :
      Spells (.number (String.ofList (c :: cs))) (c :: cs)
  | quoted {value text : List Char} (h : Quotes value text) :
      Spells (.string (String.ofList value)) ('"' :: (text ++ ['"']))
  | raw {value : List Char} (h : rawQuote ∉ value) :
      Spells (.string (String.ofList value)) (rawQuote :: (value ++ [rawQuote]))
  | symbol (s : Symbol) : Spells (.symbol s) s.text.toList
  | newline : Spells .newline ['\n']

/-- The characters mean nothing between tokens, given what follows them: a blank that breaks no line, or a
comment that goes on up to a line break. -/
inductive IsTrivia : List Char → List Char → Prop
  | blank {c : Char} {rest : List Char} (hc : isBlank c = true) (hline : c ≠ '\n') : IsTrivia [c] rest
  | comment {cs rest : List Char} (hcs : '\n' ∉ cs) (hrest : ∀ c, rest.head? = some c → c = '\n') :
      IsTrivia ('#' :: cs) rest

/-- No token is spelled here with more characters. -/
def IsLongest (lexeme rest : List Char) : Prop :=
  ∀ kind other, Spells kind other → other <+: lexeme ++ rest → other.length ≤ lexeme.length

theorem Spells.ne_nil (h : Spells kind lexeme) : lexeme ≠ [] := by
  cases h with
  | symbol s =>
    obtain ⟨c, cs, hs, -⟩ := s.text_eq_cons
    simp [hs]
  | _ => simp

theorem IsTrivia.ne_nil (h : IsTrivia lexeme rest) : lexeme ≠ [] := by
  cases h <;> simp

/-! ## Pieces -/

/-- A piece is spelled as its kind says, and trivia are trivia. -/
theorem piece_spells (h : piece location c cs = .ok p) :
    (∀ kind, p.kind = some kind → Spells kind p.lexeme) ∧ (p.kind = none → IsTrivia p.lexeme p.rest) := by
  unfold piece at h
  repeat' split at h
  all_goals try contradiction
  · rename_i hc
    obtain rfl := Except.ok.inj h
    subst hc
    exact ⟨fun kind hk => Option.some.inj hk ▸ .newline, nofun⟩
  · rename_i hline hc
    obtain rfl := Except.ok.inj h
    exact ⟨nofun, fun _ => .blank hc hline⟩
  · rename_i hc
    obtain rfl := Except.ok.inj h
    subst hc
    refine ⟨nofun, fun _ => .comment (fun hmem => ?_) fun d hd => ?_⟩
    · simpa using List.mem_takeWhile_imp hmem
    · have hhead := List.head?_dropWhile_not (· ≠ '\n') cs
      simp only [hd] at hhead
      simpa using hhead
  · rename_i hc _ _ _ _ hbody
    obtain rfl := Except.ok.inj h
    obtain ⟨text, hquotes, rfl, -⟩ := quotes_of_quotedBody hbody
    subst hc
    exact ⟨fun kind hk => Option.some.inj hk ▸ .quoted hquotes, nofun⟩
  · rename_i hc _ _ _ hbody
    obtain rfl := Except.ok.inj h
    subst hc
    exact ⟨fun kind hk => Option.some.inj hk ▸ .raw (rawBody_eq_some_iff.1 hbody).2, nofun⟩
  · rename_i hc _ lexeme rest htail
    obtain rfl := Except.ok.inj h
    have hrest := numberRest_numberTail false false cs
    rw [htail] at hrest
    exact ⟨fun kind hk => Option.some.inj hk ▸ .number hc hrest, nofun⟩
  · rename_i hc
    obtain rfl := Except.ok.inj h
    exact ⟨fun kind hk => Option.some.inj hk ▸ .name hc fun d hd => List.mem_takeWhile_imp hd, nofun⟩
  · rename_i hpiece
    obtain rfl := Except.ok.inj h
    obtain ⟨s, hkind, hlexeme, -⟩ := symbolPiece?_some hpiece
    rw [hkind, hlexeme]
    exact ⟨fun kind hk => Option.some.inj hk ▸ .symbol s, nofun⟩

/-! ### Which branch a character takes -/

theorem isDigit_iff : c.isDigit = true ↔ 48 ≤ c.toNat ∧ c.toNat ≤ 57 := by
  show (_ && _) = true ↔ _
  rw [Bool.and_eq_true, decide_eq_true_iff, decide_eq_true_iff]
  rfl

theorem isAlpha_iff :
    c.isAlpha = true ↔ (65 ≤ c.toNat ∧ c.toNat ≤ 90) ∨ (97 ≤ c.toNat ∧ c.toNat ≤ 122) := by
  show (decide _ || (_ && _)) = true ↔ _
  rw [Bool.or_eq_true, decide_eq_true_iff, Bool.and_eq_true, decide_eq_true_iff, decide_eq_true_iff]
  rfl

theorem isNamePart_iff : isNamePart c = true ↔ (c.isAlpha = true ∨ c.isDigit = true) ∨ c = '_' := by
  show ((_ || _) || decide _) = true ↔ _
  rw [Bool.or_eq_true, Bool.or_eq_true, decide_eq_true_iff]

theorem toNat_of_isNamePart (h : isNamePart c = true) :
    (48 ≤ c.toNat ∧ c.toNat ≤ 57) ∨ (65 ≤ c.toNat ∧ c.toNat ≤ 90) ∨ c.toNat = 95 ∨
      (97 ≤ c.toNat ∧ c.toNat ≤ 122) := by
  rw [isNamePart_iff, isAlpha_iff, isDigit_iff] at h
  rcases h with ((h | h) | h) | rfl
  · exact .inr (.inl h)
  · exact .inr (.inr (.inr h))
  · exact .inl h
  · exact .inr (.inr (.inl rfl))

theorem isBlank_eq_false_of_isNamePart (h : isNamePart c = true) : isBlank c = false := by
  have hrange := toNat_of_isNamePart h
  simp [isBlank, blankRanges]
  omega

theorem isDigit_eq_false_of_isNameStart (h : isNameStart c = true) : c.isDigit = false := by
  rw [isNameStart, Bool.or_eq_true, decide_eq_true_iff, isAlpha_iff] at h
  rw [← Bool.not_eq_true, isDigit_iff]
  rcases h with (h | h) | rfl
  · omega
  · omega
  · decide

theorem isNamePart_of_isNameStart (h : isNameStart c = true) : isNamePart c = true := by
  rw [isNameStart, Bool.or_eq_true, decide_eq_true_iff] at h
  exact isNamePart_iff.2 (h.imp_left .inl)

theorem isNamePart_of_isDigit (h : c.isDigit = true) : isNamePart c = true :=
  isNamePart_iff.2 (.inl (.inr h))

/-- A character of a name is not one that is none. -/
theorem ne_of_isNamePart {d : Char} (h : isNamePart c = true) (hd : isNamePart d = false) : c ≠ d := by
  rintro rfl
  rw [h] at hd
  cases hd

theorem piece_digit (h : c.isDigit = true) (location : Location) (cs : List Char) :
    piece location c cs = .ok ⟨some (.number (String.ofList (c :: (numberTail false false cs).1))),
      c :: (numberTail false false cs).1, (numberTail false false cs).2⟩ := by
  have hpart := isNamePart_of_isDigit h
  rw [piece, if_neg (ne_of_isNamePart hpart (by decide)),
    if_neg (by simp [isBlank_eq_false_of_isNamePart hpart]),
    if_neg (ne_of_isNamePart hpart (by decide)), if_neg (ne_of_isNamePart hpart (by decide)),
    if_neg (ne_of_isNamePart hpart (by decide)), if_pos h]

theorem piece_nameStart (h : isNameStart c = true) (location : Location) (cs : List Char) :
    piece location c cs = .ok ⟨some (.name (String.ofList (c :: cs.takeWhile isNamePart))),
      c :: cs.takeWhile isNamePart, cs.dropWhile isNamePart⟩ := by
  have hpart := isNamePart_of_isNameStart h
  rw [piece, if_neg (ne_of_isNamePart hpart (by decide)),
    if_neg (by simp [isBlank_eq_false_of_isNamePart hpart]),
    if_neg (ne_of_isNamePart hpart (by decide)), if_neg (ne_of_isNamePart hpart (by decide)),
    if_neg (ne_of_isNamePart hpart (by decide)), if_neg (by simp [isDigit_eq_false_of_isNameStart h]),
    if_pos h]

theorem piece_mark (h : isMark c = true) (location : Location) (cs : List Char) :
    piece location c cs = (symbolPiece? c cs).elim (.error (.unexpectedChar c location)) .ok := by
  simp only [isMark, Bool.and_eq_true, Bool.not_eq_true', decide_eq_false_iff_not] at h
  obtain ⟨⟨⟨⟨⟨⟨hline, hblank⟩, hhash⟩, hquote⟩, hraw⟩, hdigit⟩, hname⟩ := h
  rw [piece, if_neg hline, if_neg (by simp [hblank]), if_neg hhash, if_neg hquote, if_neg hraw,
    if_neg (by simp [hdigit]), if_neg (by simp [hname])]
  cases symbolPiece? c cs <;> rfl

/-! ### What is spelled is taken -/

/-- **Where a token is spelled, the piece is a token that begins with it**, and if it is no longer it is the
same token. -/
theorem Spells.piece (h : Spells kind (c :: cs)) (location : Location) (rest : List Char) :
    ∃ p k, piece location c (cs ++ rest) = .ok p ∧ p.kind = some k ∧ c :: cs <+: p.lexeme ∧
      (p.lexeme = c :: cs → k = kind) := by
  generalize htext : c :: cs = text at h
  cases h with
  | name hc hcs =>
    cases htext
    refine ⟨_, _, piece_nameStart hc location _, rfl, ?_,
      fun hlexeme => congrArg (Kind.name ∘ String.ofList) hlexeme⟩
    rw [List.takeWhile_append_of_pos hcs]
    exact ⟨rest.takeWhile isNamePart, rfl⟩
  | number hc hcs =>
    cases htext
    refine ⟨_, _, piece_digit hc location _, rfl, ?_,
      fun hlexeme => congrArg (Kind.number ∘ String.ofList) hlexeme⟩
    exact (List.prefix_cons_inj c).2 (hcs.isPrefix rest)
  | @quoted value text h =>
    cases htext
    refine ⟨⟨_, _, rest⟩, _, ?_, rfl, List.prefix_rfl, fun _ => rfl⟩
    rw [Rego.piece, if_neg (by decide), if_neg (by decide), if_neg (by decide), if_pos rfl,
      List.append_assoc, List.singleton_append, quotedBody_of_quotes h]
  | @raw value h =>
    cases htext
    refine ⟨⟨_, _, rest⟩, _, ?_, rfl, List.prefix_rfl, fun _ => rfl⟩
    rw [Rego.piece, if_neg (by decide), if_neg (by decide), if_neg (by decide), if_neg (by decide),
      if_pos rfl, List.append_assoc, List.singleton_append, rawBody_eq_some_iff.2 ⟨rfl, h⟩]
    rfl
  | symbol s =>
    obtain ⟨a, as, hs, hmark⟩ := s.text_eq_cons
    rw [hs] at htext
    cases htext
    have hleads : s.text.toList <+: c :: (cs ++ rest) := ⟨rest, by rw [hs]; rfl⟩
    rw [piece_mark hmark]
    cases hpiece : symbolPiece? c (cs ++ rest) with
    | none => exact absurd hleads (not_prefix_of_symbolPiece? hpiece s)
    | some p =>
      obtain ⟨t, hkind, hlexeme, hlongest⟩ := symbolPiece?_some hpiece
      refine ⟨p, .symbol t, rfl, hkind, ?_, fun heq => ?_⟩
      · exact List.prefix_of_prefix_length_le hleads ⟨p.rest, (symbolPiece?_append hpiece).1⟩
          (hlongest s hleads)
      · rw [Symbol.text_injective (hlexeme.symm.trans heq)]
  | newline =>
    cases htext
    exact ⟨⟨_, _, rest⟩, _, rfl, rfl, List.prefix_rfl, fun _ => rfl⟩

theorem IsTrivia.piece (h : IsTrivia (c :: cs) rest) (location : Location) :
    piece location c (cs ++ rest) = .ok ⟨none, c :: cs, rest⟩ := by
  generalize htext : c :: cs = text at h
  cases h with
  | blank hc hline =>
    cases htext
    rw [Rego.piece, if_neg hline, if_pos hc]
    rfl
  | comment hcs hrest =>
    cases htext
    have hall : ∀ d ∈ cs, decide (d ≠ '\n') = true := by
      intro d hd
      rw [decide_eq_true_iff]
      rintro rfl
      exact hcs hd
    have htake : rest.takeWhile (· ≠ '\n') = [] := by
      cases rest with
      | nil => rfl
      | cons d ds => simp [hrest d rfl]
    have hdrop : rest.dropWhile (· ≠ '\n') = rest := by
      cases rest with
      | nil => rfl
      | cons d ds => simp [hrest d rfl]
    rw [Rego.piece, if_neg (by decide), if_neg (by decide), if_pos rfl, List.takeWhile_append_of_pos hall,
      List.dropWhile_append_of_pos hall, htake, hdrop, List.append_nil]

/-- **A piece is the longest token that is spelled at its place.** -/
theorem isLongest_of_piece (h : piece location c cs = .ok p) : IsLongest p.lexeme p.rest := by
  intro kind other hother hleads
  rw [(piece_append h).1] at hleads
  obtain ⟨rest, hrest⟩ := hleads
  obtain ⟨d, ds, rfl⟩ := List.exists_cons_of_ne_nil hother.ne_nil
  obtain ⟨rfl, rfl⟩ := List.cons.inj hrest
  obtain ⟨q, k, hq, -, hbegins, -⟩ := hother.piece location rest
  obtain rfl := Except.ok.inj (h.symm.trans hq)
  exact hbegins.length_le

/-- **The longest token that is spelled at a place is the piece there.** -/
theorem piece_of_isLongest (h : Spells kind (c :: cs)) (hlongest : IsLongest (c :: cs) rest)
    (location : Location) : piece location c (cs ++ rest) = .ok ⟨some kind, c :: cs, rest⟩ := by
  obtain ⟨p, k, hp, hk, hbegins, hsame⟩ := h.piece location rest
  have happ : p.lexeme ++ p.rest = c :: cs ++ rest := (piece_append hp).1
  have hlexeme : c :: cs = p.lexeme :=
    hbegins.eq_of_length_le (hlongest k p.lexeme ((piece_spells hp).1 k hk) ⟨p.rest, happ⟩)
  obtain ⟨kind', lexeme, rest'⟩ := p
  subst hlexeme hk
  obtain rfl : rest' = rest := List.append_cancel_left happ
  rw [hp, hsame rfl]

/-! ### Where nothing starts -/

/-- Neither a token nor trivia is at the head of the text. -/
structure IsStuck (text : List Char) : Prop where
  ne_nil : text ≠ []
  token : ∀ kind lexeme, Spells kind lexeme → ¬lexeme <+: text
  trivia : ∀ lexeme rest, IsTrivia lexeme rest → lexeme ++ rest ≠ text

/-- What there is to complain about at a place where nothing starts. -/
inductive Complains (location : Location) : List Char → SyntaxError → Prop
  | string {c : Char} {cs : List Char} (hc : c = '"' ∨ c = rawQuote) :
      Complains location (c :: cs) (.unterminatedString location)
  | char {c : Char} {cs : List Char} (hc : ¬(c = '"' ∨ c = rawQuote)) :
      Complains location (c :: cs) (.unexpectedChar c location)

theorem Complains.unique {text : List Char} {e e' : SyntaxError} (h : Complains location text e)
    (h' : Complains location text e') : e = e' := by
  cases h with
  | string hc =>
    cases h' with
    | string => rfl
    | char hc' => exact absurd hc hc'
  | char hc =>
    cases h' with
    | string hc' => exact absurd hc' hc
    | char => rfl

theorem Complains.location?_eq {text : List Char} {e : SyntaxError} (h : Complains location text e) :
    e.location? = some location := by
  cases h <;> rfl

theorem complains_of_piece {e : SyntaxError} (h : piece location c cs = .error e) :
    Complains location (c :: cs) e := by
  unfold piece at h
  repeat' split at h
  all_goals try contradiction
  · cases h
    exact .string (.inl ‹_›)
  · cases h
    exact .string (.inr ‹_›)
  · cases h
    exact .char (not_or.2 ⟨‹_›, ‹_›⟩)

/-- **The lexer complains where nothing starts**, and nowhere else. -/
theorem piece_eq_error_iff {e : SyntaxError} :
    piece location c cs = .error e ↔ IsStuck (c :: cs) ∧ Complains location (c :: cs) e := by
  constructor
  · intro h
    have htoken : ∀ kind lexeme, Spells kind lexeme → ¬lexeme <+: c :: cs := by
      rintro kind lexeme hspells ⟨rest, hrest⟩
      obtain ⟨d, ds, rfl⟩ := List.exists_cons_of_ne_nil hspells.ne_nil
      obtain ⟨rfl, rfl⟩ := List.cons.inj hrest
      obtain ⟨p, k, hp, -⟩ := hspells.piece location rest
      cases h.symm.trans hp
    have htrivia : ∀ lexeme rest, IsTrivia lexeme rest → lexeme ++ rest ≠ c :: cs := by
      intro lexeme rest htrivia happ
      obtain ⟨d, ds, rfl⟩ := List.exists_cons_of_ne_nil htrivia.ne_nil
      obtain ⟨rfl, rfl⟩ := List.cons.inj happ
      cases h.symm.trans (htrivia.piece location)
    exact ⟨⟨List.cons_ne_nil c cs, htoken, htrivia⟩, complains_of_piece h⟩
  · rintro ⟨hstuck, hcomplains⟩
    cases hpiece : piece location c cs with
    | error e' => rw [(complains_of_piece hpiece).unique hcomplains]
    | ok p =>
      obtain ⟨hspells, htrivia⟩ := piece_spells hpiece
      have happ := (piece_append hpiece).1
      cases hkind : p.kind with
      | none => exact absurd happ (hstuck.trivia _ _ (htrivia hkind))
      | some kind => exact absurd ⟨p.rest, happ⟩ (hstuck.token _ _ (hspells kind hkind))

/-! ## Splits -/

/-- A stretch of a source: the token that it is, if it is no trivia, and its characters. -/
structure Stretch where
  token? : Option Token
  lexeme : List Char

/-- The characters of stretches. -/
def textOf (stretches : List Stretch) : List Char := stretches.flatMap Stretch.lexeme

/-- The tokens of stretches. -/
def tokensOf (stretches : List Stretch) : List Token := stretches.filterMap Stretch.token?

/-- The place after some characters: its row is counted by line breaks, its column from the last of them. -/
def placeAfter (cs : List Char) : Location :=
  ⟨1 + cs.count '\n', 1 + (cs.reverse.takeWhile (· ≠ '\n')).length⟩

/-- A token after these stretches stands apart: it is the first, or comes after a line break or trivia. -/
def StandsApart (before : List Stretch) : Prop :=
  tokensOf before = [] ∨ (∃ t, (tokensOf before).getLast? = some t ∧ t.kind = .newline) ∨
    ∃ s, before.getLast? = some s ∧ s.token? = none

/-- What a stretch has to be, given the stretches before it and the text behind it. -/
def Stretch.Fits (before : List Stretch) (rest : List Char) (s : Stretch) : Prop :=
  match s.token? with
  | some t => Spells t.kind s.lexeme ∧ IsLongest s.lexeme rest ∧ t.location = placeAfter (textOf before) ∧
      (t.spaced = true ↔ StandsApart before)
  | none => IsTrivia s.lexeme rest

/-- Every stretch is what it has to be, if `rest` follows the last. -/
def IsSplit (stretches : List Stretch) (rest : List Char) : Prop :=
  ∀ before s after, stretches = before ++ s :: after → s.Fits before (textOf after ++ rest)

theorem textOf_append (ss ts : List Stretch) : textOf (ss ++ ts) = textOf ss ++ textOf ts :=
  List.flatMap_append

theorem tokensOf_append (ss ts : List Stretch) : tokensOf (ss ++ ts) = tokensOf ss ++ tokensOf ts :=
  List.filterMap_append

theorem isSplit_nil (rest : List Char) : IsSplit [] rest := by
  intro before s after heq
  simp at heq

/-- Every token of a split is that of a stretch which fits. -/
theorem IsSplit.exists_stretch {stretches : List Stretch} {t : Token} (h : IsSplit stretches rest)
    (ht : t ∈ tokensOf stretches) :
    ∃ before lexeme after, stretches = before ++ ⟨some t, lexeme⟩ :: after ∧
      (⟨some t, lexeme⟩ : Stretch).Fits before (textOf after ++ rest) := by
  obtain ⟨⟨token?, lexeme⟩, hs, htoken⟩ := List.mem_filterMap.1 ht
  obtain ⟨before, after, rfl⟩ := List.append_of_mem hs
  obtain rfl : token? = some t := htoken
  exact ⟨before, lexeme, after, rfl, h before _ after rfl⟩

/-- A split goes on with a stretch that fits behind it. -/
theorem IsSplit.snoc {before : List Stretch} {s : Stretch} (h : IsSplit before (s.lexeme ++ rest))
    (hs : s.Fits before rest) : IsSplit (before ++ [s]) rest := by
  intro front x back heq
  rcases List.eq_nil_or_concat back with rfl | ⟨back, y, rfl⟩
  · obtain ⟨rfl, hx⟩ := List.append_inj' heq rfl
    cases hx
    exact hs
  · rw [List.concat_eq_append, ← List.cons_append, ← List.append_assoc] at heq
    obtain ⟨rfl, hy⟩ := List.append_inj' heq rfl
    cases hy
    have hx := h front x back rfl
    rw [List.concat_eq_append, textOf_append, List.append_assoc]
    simpa [textOf] using hx

theorem Stretch.Fits.cut {before : List Stretch} {s : Stretch} {text : List Char}
    (h : s.Fits before (text ++ rest)) : s.Fits before text := by
  obtain ⟨_ | t, lexeme⟩ := s
  · cases (h : IsTrivia lexeme (text ++ rest)) with
    | blank hc hline => exact IsTrivia.blank hc hline
    | comment hcs hrest =>
      refine IsTrivia.comment hcs fun c hc => hrest c ?_
      rw [List.head?_append, hc]
      rfl
  · obtain ⟨hspells, hlongest, hplace⟩ := h
    exact ⟨hspells, fun kind other hother hleads => hlongest kind other hother
      (hleads.trans ⟨rest, List.append_assoc ..⟩), hplace⟩

/-- What is behind a split text may be cut off. -/
theorem IsSplit.cut {stretches : List Stretch} (h : IsSplit stretches rest) : IsSplit stretches [] := by
  intro before s after heq
  rw [List.append_nil]
  exact (h before s after heq).cut

theorem placeAfter_snoc (cs : List Char) (c : Char) : placeAfter (cs ++ [c]) = (placeAfter cs).step c := by
  by_cases hc : c = '\n'
  · simp [placeAfter, Location.step, hc, Nat.add_assoc]
  · simp [placeAfter, Location.step, hc, Nat.add_comm]

theorem placeAfter_append (cs ds : List Char) : placeAfter (cs ++ ds) = (placeAfter cs).after ds := by
  induction ds generalizing cs with
  | nil => simp [Location.after]
  | cons d ds ih =>
    rw [← List.singleton_append, ← List.append_assoc, ih, placeAfter_snoc]
    rfl

theorem standsApart_trivia (before : List Stretch) (lexeme : List Char) :
    StandsApart (before ++ [⟨none, lexeme⟩]) :=
  .inr (.inr ⟨_, List.getLast?_concat, rfl⟩)

theorem standsApart_token (before : List Stretch) (t : Token) (lexeme : List Char) :
    StandsApart (before ++ [⟨some t, lexeme⟩]) ↔ t.kind = .newline := by
  have htokens : tokensOf (before ++ [⟨some t, lexeme⟩]) = tokensOf before ++ [t] := by
    rw [tokensOf_append]
    rfl
  simp [StandsApart, htokens]

/-! ## The scan -/

section Scan

variable {spaced : Bool}

theorem scan_trivia (h : piece location c cs = .ok ⟨none, lexeme, rest⟩) :
    scan location spaced (c :: cs) = scan (location.after lexeme) true rest := by
  rw [scan]
  split
  · rename_i heq
    cases heq.symm.trans h
  · rename_i heq
    obtain rfl := Except.ok.inj (heq.symm.trans h)
    rfl

theorem scan_token (h : piece location c cs = .ok ⟨some kind, lexeme, rest⟩) :
    scan location spaced (c :: cs) =
      (scan (location.after lexeme) (kind = .newline) rest).map (⟨kind, location, spaced⟩ :: ·) := by
  rw [scan]
  split
  · rename_i heq
    cases heq.symm.trans h
  · rename_i heq
    obtain rfl := Except.ok.inj (heq.symm.trans h)
    rfl

theorem scan_error {e : SyntaxError} (h : piece location c cs = .error e) :
    scan location spaced (c :: cs) = .error e := by
  rw [scan]
  split
  · rename_i heq
    rw [Except.error.inj (heq.symm.trans h)]
  · rename_i heq
    cases heq.symm.trans h

/-- **Stretches that fit are what is scanned.**  The scan's place and flag stand for the stretches before. -/
theorem scan_stretches {before stretches : List Stretch} (spaced : Bool)
    (h : IsSplit (before ++ stretches) rest) (hspaced : spaced = true ↔ StandsApart before) :
    ∃ spaced', (spaced' = true ↔ StandsApart (before ++ stretches)) ∧
      scan (placeAfter (textOf before)) spaced (textOf stretches ++ rest) =
        (scan (placeAfter (textOf (before ++ stretches))) spaced' rest).map (tokensOf stretches ++ ·) := by
  induction stretches generalizing before spaced with
  | nil =>
    refine ⟨spaced, by simpa using hspaced, ?_⟩
    rw [List.append_nil]
    show scan _ _ rest = (scan _ _ rest).map id
    cases scan (placeAfter (textOf before)) spaced rest <;> rfl
  | cons s stretches ih =>
    have hfits := h before s stretches rfl
    have hnext : before ++ s :: stretches = (before ++ [s]) ++ stretches := by simp
    have htext : textOf (s :: stretches) ++ rest = s.lexeme ++ (textOf stretches ++ rest) := by
      rw [← List.append_assoc]
      rfl
    have hplace : placeAfter (textOf (before ++ [s])) = (placeAfter (textOf before)).after s.lexeme := by
      rw [textOf_append, placeAfter_append]
      simp [textOf]
    rw [hnext] at h ⊢
    obtain ⟨_ | t, lexeme⟩ := s
    · have htrivia : IsTrivia lexeme (textOf stretches ++ rest) := hfits
      obtain ⟨c, cs, rfl⟩ := List.exists_cons_of_ne_nil htrivia.ne_nil
      obtain ⟨spaced', hspaced', hscan⟩ := ih true h (by simp [standsApart_trivia])
      refine ⟨spaced', hspaced', ?_⟩
      rw [htext, List.cons_append, scan_trivia (htrivia.piece _), ← hplace, hscan]
      rfl
    · obtain ⟨hspells, hlongest, hlocation, hapart⟩ := hfits
      obtain ⟨c, cs, rfl⟩ := List.exists_cons_of_ne_nil hspells.ne_nil
      obtain ⟨spaced', hspaced', hscan⟩ :=
        ih (decide (t.kind = .newline)) h (by simp [standsApart_token])
      have htoken : (⟨t.kind, placeAfter (textOf before), spaced⟩ : Token) = t := by
        have hsame : spaced = t.spaced := Bool.eq_iff_iff.2 (hspaced.trans hapart.symm)
        rw [hsame, ← hlocation]
      refine ⟨spaced', hspaced', ?_⟩
      rw [htext, List.cons_append, scan_token (piece_of_isLongest hspells hlongest _), ← hplace, hscan, htoken]
      cases scan (placeAfter (textOf (before ++ [⟨some t, c :: cs⟩] ++ stretches))) spaced' rest <;> rfl

theorem scan_split {stretches : List Stretch} (h : IsSplit stretches rest) :
    ∃ spaced, (spaced = true ↔ StandsApart stretches) ∧
      scan (placeAfter []) true (textOf stretches ++ rest) =
        (scan (placeAfter (textOf stretches)) spaced rest).map (tokensOf stretches ++ ·) := by
  rw [← List.nil_append stretches] at h ⊢
  exact scan_stretches true h (by simp [StandsApart, tokensOf])

end Scan

/-- **Every text splits** into stretches that fit, up to its end or to a place where nothing starts. -/
theorem exists_split {before : List Stretch} {text : List Char} (h : IsSplit before text) :
    ∃ stretches rest, text = textOf stretches ++ rest ∧ IsSplit (before ++ stretches) rest ∧
      (rest = [] ∨ IsStuck rest) := by
  induction hlength : text.length using Nat.strongRecOn generalizing before text with
  | ind length ih =>
    cases text with
    | nil => exact ⟨[], [], rfl, by simpa using h, .inl rfl⟩
    | cons c cs =>
      cases hpiece : piece (placeAfter (textOf before)) c cs with
      | error e => exact ⟨[], c :: cs, rfl, by simpa using h, .inr (piece_eq_error_iff.1 hpiece).1⟩
      | ok p =>
        obtain ⟨happ, -⟩ := piece_append hpiece
        obtain ⟨hspells, htrivia⟩ := piece_spells hpiece
        let s : Stretch := ⟨p.kind.map fun kind =>
          ⟨kind, placeAfter (textOf before), open Classical in decide (StandsApart before)⟩, p.lexeme⟩
        have hs : s.Fits before p.rest := by
          cases hkind : p.kind with
          | none => simpa [s, Stretch.Fits, hkind] using htrivia hkind
          | some kind =>
            simpa [s, Stretch.Fits, hkind] using ⟨hspells kind hkind, isLongest_of_piece hpiece⟩
        have hnext : IsSplit (before ++ [s]) p.rest := IsSplit.snoc (by simpa [s, happ] using h) hs
        obtain ⟨stretches, rest, hrest, hsplit, hend⟩ :=
          ih _ (hlength ▸ piece_rest_length hpiece) hnext rfl
        refine ⟨s :: stretches, rest, ?_, by simpa using hsplit, hend⟩
        rw [← happ, hrest]
        simp [textOf, s]

/-! ## The tokens of a source -/

/-- The source splits into stretches, and these are their tokens with the end of the input behind them. -/
def IsTokenization (source : List Char) (tokens : List Token) : Prop :=
  ∃ stretches last, textOf stretches = source ∧ IsSplit stretches [] ∧ tokens = tokensOf stretches ++ [last] ∧
    last.kind = .endOfInput ∧ last.location = placeAfter source ∧ (last.spaced = true ↔ StandsApart stretches)

/-- The source splits up to a text at whose head nothing starts, and that is the complaint. -/
def IsRefusal (source before text : List Char) (e : SyntaxError) : Prop :=
  source = before ++ text ∧ (∃ stretches, textOf stretches = before ∧ IsSplit stretches text) ∧
    IsStuck text ∧ Complains (placeAfter before) text e

theorem tokenize_of_isTokenization {source : List Char} {tokens : List Token}
    (h : IsTokenization source tokens) : tokenize (String.ofList source) = .ok tokens := by
  obtain ⟨stretches, last, rfl, hsplit, rfl, hkind, hlocation, hapart⟩ := h
  obtain ⟨spaced, hspaced, hscan⟩ := scan_split hsplit
  have hlast : (⟨.endOfInput, placeAfter (textOf stretches), spaced⟩ : Token) = last := by
    have hsame : spaced = last.spaced := Bool.eq_iff_iff.2 (hspaced.trans hapart.symm)
    rw [hsame, ← hkind, ← hlocation]
  rw [List.append_nil] at hscan
  rw [tokenize, String.toList_ofList, ← hlast]
  exact hscan.trans (by rw [scan]; rfl)

theorem tokenize_of_isRefusal {source before text : List Char} {e : SyntaxError}
    (h : IsRefusal source before text e) : tokenize (String.ofList source) = .error e := by
  obtain ⟨rfl, ⟨stretches, rfl, hsplit⟩, hstuck, hcomplains⟩ := h
  obtain ⟨spaced, -, hscan⟩ := scan_split hsplit
  obtain ⟨c, cs, rfl⟩ := List.exists_cons_of_ne_nil hstuck.ne_nil
  rw [tokenize, String.toList_ofList]
  exact hscan.trans (by rw [scan_error (piece_eq_error_iff.2 ⟨hstuck, hcomplains⟩)]; rfl)

/-- A source that splits has tokens. -/
theorem exists_isTokenization {stretches : List Stretch} (h : IsSplit stretches []) :
    ∃ tokens, IsTokenization (textOf stretches) tokens :=
  ⟨_, stretches, ⟨.endOfInput, placeAfter (textOf stretches), open Classical in decide (StandsApart stretches)⟩,
    rfl, h, rfl, rfl, rfl, by simp⟩

theorem exists_complains (location : Location) {text : List Char} (h : IsStuck text) :
    ∃ e, Complains location text e := by
  obtain ⟨c, cs, rfl⟩ := List.exists_cons_of_ne_nil h.ne_nil
  by_cases hc : c = '"' ∨ c = rawQuote
  · exact ⟨_, .string hc⟩
  · exact ⟨_, .char hc⟩

/-- Either the whole of a source splits, or it is refused somewhere. -/
theorem isTokenization_or_isRefusal (source : List Char) :
    (∃ tokens, IsTokenization source tokens) ∨ ∃ before text e, IsRefusal source before text e := by
  obtain ⟨stretches, rest, rfl, hsplit, rfl | hstuck⟩ := exists_split (isSplit_nil source)
  · rw [List.append_nil]
    exact .inl (exists_isTokenization hsplit)
  · obtain ⟨e, he⟩ := exists_complains (placeAfter (textOf stretches)) hstuck
    exact .inr ⟨_, rest, e, rfl, ⟨stretches, rfl, hsplit⟩, hstuck, he⟩

theorem isTokenization_of_tokenize {source : String} {tokens : List Token} (h : tokenize source = .ok tokens) :
    IsTokenization source.toList tokens := by
  rcases isTokenization_or_isRefusal source.toList with ⟨other, hother⟩ | ⟨before, text, e, he⟩
  · have hok := tokenize_of_isTokenization hother
    rw [String.ofList_toList, h] at hok
    exact Except.ok.inj hok ▸ hother
  · have herror := tokenize_of_isRefusal he
    rw [String.ofList_toList, h] at herror
    cases herror

theorem isRefusal_of_tokenize {source : String} {e : SyntaxError} (h : tokenize source = .error e) :
    ∃ before text, IsRefusal source.toList before text e := by
  rcases isTokenization_or_isRefusal source.toList with ⟨tokens, htokens⟩ | ⟨before, text, other, hother⟩
  · have hok := tokenize_of_isTokenization htokens
    rw [String.ofList_toList, h] at hok
    cases hok
  · have herror := tokenize_of_isRefusal hother
    rw [String.ofList_toList, h] at herror
    exact ⟨before, text, Except.error.inj herror ▸ hother⟩

/-- What stands before the text that is refused has tokens. -/
theorem IsRefusal.exists_tokens {source before text : List Char} {e : SyntaxError}
    (h : IsRefusal source before text e) : ∃ tokens, tokenize (String.ofList before) = .ok tokens := by
  obtain ⟨-, ⟨stretches, rfl, hsplit⟩, -, -⟩ := h
  obtain ⟨tokens, htokens⟩ := exists_isTokenization hsplit.cut
  exact ⟨tokens, tokenize_of_isTokenization htokens⟩

/-- **Nothing of a source is lost between its tokens.**  A source has the tokens of the stretches into which
it splits, and the end of the input behind them.  It is refused where no stretch starts: the error has this
place, and what stands before it has tokens. -/
theorem tokenize_lossless (source : String) :
    (∀ tokens, tokenize source = .ok tokens ↔ IsTokenization source.toList tokens) ∧
      ∀ e, tokenize source = .error e ↔ ∃ before text, IsRefusal source.toList before text e ∧
        e.location? = some (placeAfter before) ∧ ∃ tokens, tokenize (String.ofList before) = .ok tokens := by
  refine ⟨fun tokens => ⟨isTokenization_of_tokenize, fun h => ?_⟩, fun e => ⟨fun h => ?_, fun h => ?_⟩⟩
  · simpa using tokenize_of_isTokenization h
  · obtain ⟨before, text, hrefusal⟩ := isRefusal_of_tokenize h
    obtain ⟨-, -, -, hcomplains⟩ := id hrefusal
    exact ⟨before, text, hrefusal, hcomplains.location?_eq, hrefusal.exists_tokens⟩
  · obtain ⟨before, text, hrefusal, -, -⟩ := h
    simpa using tokenize_of_isRefusal hrefusal

end Gatehouse.Rego
