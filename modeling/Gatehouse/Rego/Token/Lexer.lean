import Gatehouse.Rego.Token
import Gatehouse.Text.Blank
import Gatehouse.Text.Hex
import Gatehouse.Text.Piece

/-!
# From source to tokens

`tokenize` splits a source into tokens.

1. **Program.**  `piece` takes one piece off the head of the text: a token, or some trivia (a blank
   other than a newline, or a comment up to its newline).  It answers the characters it took, the
   *lexeme*, and those it left.  `scan` repeats it, keeping the place and the adjacency.
2. **Strings.**  A quoted string ends at its quote, and not at a newline unless a backslash stands
   before it.  An escape by number that names half a surrogate pair is the replacement character;
   an escape of a letter that means nothing stands for that letter.  A raw string ends at the next
   back quote.
3. **Numbers.**  A point belongs to a number only before a digit, so that `1.foo` is the number 1
   and a reference; an exponent mark belongs to it whatever follows.
4. **The crux (`piece_append`).**  Lexeme and rest together are the text, and the lexeme is not
   empty.  So nothing is lost between the tokens, and `scan` ends because the rest is shorter.
-/

namespace Gatehouse.Rego

open Gatehouse.Text

/-! ## Strings -/

/-- What the letter after a backslash stands for. -/
def unescape : Char → Char
  | 'n' => '\n'
  | 't' => '\t'
  | 'r' => '\r'
  | 'b' => '\x08'
  | 'f' => '\x0c'
  | c => c

/-- The character of a number of UTF-16, if it is one. -/
def ofUnit (n : Nat) : Char := if isLead n || isTrail n then '\ufffd' else Char.ofNat n

/-- A string after its opening quote: its value, its characters and what follows. -/
def quotedBody : List Char → Option (List Char × List Char × List Char)
  | [] => none
  | '"' :: cs => some ([], ['"'], cs)
  | '\\' :: 'u' :: a :: b :: c :: d :: cs => do
    let n ← hex4? a b c d
    let (value, lexeme, rest) ← quotedBody cs
    return (ofUnit n :: value, '\\' :: 'u' :: a :: b :: c :: d :: lexeme, rest)
  | '\\' :: e :: cs =>
    if e = 'u' then none
    else do
      let (value, lexeme, rest) ← quotedBody cs
      return (unescape e :: value, '\\' :: e :: lexeme, rest)
  | c :: cs =>
    if c = '\n' || c = '\\' then none
    else do
      let (value, lexeme, rest) ← quotedBody cs
      return (c :: value, c :: lexeme, rest)

/-- The mark around raw strings. -/
def rawQuote : Char := '\x60'

/-- A raw string after its opening quote: its value and what follows its closing quote. -/
def rawBody : List Char → Option (List Char × List Char)
  | [] => none
  | c :: cs =>
    if c = rawQuote then some ([], cs)
    else do
      let (value, rest) ← rawBody cs
      return (c :: value, rest)

/-! ## Numbers and names -/

/-- The rest of a number, given whether it has its point and its exponent. -/
def numberTail (hasPoint hasExponent : Bool) : List Char → List Char × List Char
  | [] => ([], [])
  | c :: cs =>
    if c.isDigit then
      let (lexeme, rest) := numberTail hasPoint hasExponent cs
      (c :: lexeme, rest)
    else if c = '.' && !hasPoint && !hasExponent && (cs.head?.any Char.isDigit) then
      let (lexeme, rest) := numberTail true hasExponent cs
      (c :: lexeme, rest)
    else if (c = 'e' || c = 'E') && !hasExponent then
      match cs with
      | [] => ([c], [])
      | s :: cs =>
        if s = '+' || s = '-' then
          let (lexeme, rest) := numberTail hasPoint true cs
          (c :: s :: lexeme, rest)
        else
          let (lexeme, rest) := numberTail hasPoint true (s :: cs)
          (c :: lexeme, rest)
    else ([], c :: cs)

/-- A character that starts a name. -/
def isNameStart (c : Char) : Bool := c.isAlpha || c = '_'

/-- A character inside a name. -/
def isNamePart (c : Char) : Bool := c.isAlphanum || c = '_'

/-! ## Symbols -/

/-- The symbol of two characters. -/
def symbolPair? : Char → Char → Option Symbol
  | ':', '=' => some .assign
  | '=', '=' => some .eq
  | '!', '=' => some .neq
  | '<', '=' => some .lte
  | '>', '=' => some .gte
  | _, _ => none

/-- The symbol of one character. -/
def symbolChar? : Char → Option Symbol
  | '\x7b' => some .lbrace
  | '\x7d' => some .rbrace
  | '[' => some .lbracket
  | ']' => some .rbracket
  | '(' => some .lparen
  | ')' => some .rparen
  | ',' => some .comma
  | ';' => some .semicolon
  | ':' => some .colon
  | '.' => some .dot
  | '|' => some .pipe
  | '&' => some .amp
  | '=' => some .unify
  | '<' => some .lt
  | '>' => some .gt
  | '+' => some .plus
  | '-' => some .minus
  | '*' => some .star
  | '/' => some .slash
  | '%' => some .percent
  | _ => none

/-- The longest symbol at the head of a text. -/
def symbolPiece? (c : Char) (cs : List Char) : Option (Piece Kind) :=
  match cs with
  | d :: rest =>
    match symbolPair? c d with
    | some s => some ⟨some (.symbol s), [c, d], rest⟩
    | none => (symbolChar? c).map fun s => ⟨some (.symbol s), [c], cs⟩
  | [] => (symbolChar? c).map fun s => ⟨some (.symbol s), [c], cs⟩

/-! ## Pieces -/

/-- The piece at the head of a text. -/
def piece (location : Location) (c : Char) (cs : List Char) : Except SyntaxError (Piece Kind) :=
  if c = '\n' then .ok ⟨some .newline, [c], cs⟩
  else if isBlank c then .ok ⟨none, [c], cs⟩
  else if c = '#' then .ok ⟨none, c :: cs.takeWhile (· ≠ '\n'), cs.dropWhile (· ≠ '\n')⟩
  else if c = '"' then
    match quotedBody cs with
    | some (value, lexeme, rest) =>
      .ok ⟨some (.string (String.ofList value)), c :: lexeme, rest⟩
    | none => .error (.unterminatedString location)
  else if c = rawQuote then
    match rawBody cs with
    | some (value, rest) =>
      .ok ⟨some (.string (String.ofList value)), c :: value ++ [rawQuote], rest⟩
    | none => .error (.unterminatedString location)
  else if c.isDigit then
    let (lexeme, rest) := numberTail false false cs
    .ok ⟨some (.number (String.ofList (c :: lexeme))), c :: lexeme, rest⟩
  else if isNameStart c then
    let lexeme := c :: cs.takeWhile isNamePart
    .ok ⟨some (.name (String.ofList lexeme)), lexeme, cs.dropWhile isNamePart⟩
  else
    match symbolPiece? c cs with
    | some p => .ok p
    | none => .error (.unexpectedChar c location)

/-! ### Nothing is lost -/

theorem quotedBody_append {cs value lexeme rest : List Char}
    (h : quotedBody cs = some (value, lexeme, rest)) : lexeme ++ rest = cs := by
  fun_induction quotedBody cs generalizing value lexeme rest with
  | case1 => simp at h
  | case2 cs => simp at h; simp [← h.2.1, ← h.2.2]
  | case3 a b c d cs ih =>
    simp only [Option.bind_eq_bind, Option.bind_eq_some_iff] at h
    obtain ⟨n, -, ⟨v, l, r⟩, hq, he⟩ := h
    simp at he
    simp [← he.2.1, ← he.2.2, ih hq]
  | case4 => simp at h
  | case5 e cs _ _ ih =>
    simp only [Option.bind_eq_bind, Option.bind_eq_some_iff] at h
    obtain ⟨⟨v, l, r⟩, hq, he⟩ := h
    simp at he
    simp [← he.2.1, ← he.2.2, ih hq]
  | case6 => simp at h
  | case7 c cs _ _ _ _ ih =>
    simp only [Option.bind_eq_bind, Option.bind_eq_some_iff] at h
    obtain ⟨⟨v, l, r⟩, hq, he⟩ := h
    simp at he
    simp [← he.2.1, ← he.2.2, ih hq]

theorem rawBody_append {cs value rest : List Char} (h : rawBody cs = some (value, rest)) :
    value ++ rawQuote :: rest = cs := by
  fun_induction rawBody cs generalizing value rest with
  | case1 => simp at h
  | case2 cs => simp at h; simp [← h.1, ← h.2]
  | case3 c cs _ ih =>
    simp only [Option.bind_eq_bind, Option.bind_eq_some_iff] at h
    obtain ⟨⟨v, r⟩, hq, he⟩ := h
    simp at he
    simp [← he.1, ← he.2, ih hq]

theorem numberTail_append (hasPoint hasExponent : Bool) (cs : List Char) :
    (numberTail hasPoint hasExponent cs).1 ++ (numberTail hasPoint hasExponent cs).2 = cs := by
  fun_induction numberTail hasPoint hasExponent cs <;> simp_all

theorem symbolPiece?_append {c : Char} {cs : List Char} {p : Piece Kind}
    (h : symbolPiece? c cs = some p) : p.lexeme ++ p.rest = c :: cs ∧ p.lexeme ≠ [] := by
  unfold symbolPiece? at h
  split at h
  · split at h
    · obtain rfl := Option.some.inj h; simp
    · obtain ⟨s, -, rfl⟩ := Option.map_eq_some_iff.1 h; simp
  · obtain ⟨s, -, rfl⟩ := Option.map_eq_some_iff.1 h; simp

/-- A piece and what follows it are the text, and the piece is not empty. -/
theorem piece_append {location : Location} {c : Char} {cs : List Char} {p : Piece Kind}
    (h : piece location c cs = .ok p) : p.lexeme ++ p.rest = c :: cs ∧ p.lexeme ≠ [] := by
  unfold piece at h
  repeat' split at h
  all_goals try contradiction
  · obtain rfl := Except.ok.inj h; simp
  · obtain rfl := Except.ok.inj h; simp
  · obtain rfl := Except.ok.inj h; simp
  · next hq => obtain rfl := Except.ok.inj h; simp [quotedBody_append hq]
  · next hr => obtain rfl := Except.ok.inj h; simp [rawBody_append hr]
  · next hn => obtain rfl := Except.ok.inj h; simpa [hn] using numberTail_append false false cs
  · obtain rfl := Except.ok.inj h; simp
  · next hs => obtain rfl := Except.ok.inj h; exact symbolPiece?_append hs

theorem piece_rest_length {location : Location} {c : Char} {cs : List Char} {p : Piece Kind}
    (h : piece location c cs = .ok p) : p.rest.length < (c :: cs).length := by
  obtain ⟨happ, hne⟩ := piece_append h
  rw [← happ, List.length_append]
  have := List.length_pos_iff.2 hne
  omega

/-! ## Tokens -/

/-- The tokens of a text that starts at `location`; `spaced` says whether its first token stands
apart. -/
def scan (location : Location) (spaced : Bool) (text : List Char) :
    Except SyntaxError (List Token) :=
  match text with
  | [] => .ok [⟨.endOfInput, location, spaced⟩]
  | c :: cs =>
    match _h : piece location c cs with
    | .error e => .error e
    | .ok p =>
      match p.kind with
      | none => scan (location.after p.lexeme) true p.rest
      | some kind =>
        (scan (location.after p.lexeme) (kind = .newline) p.rest).map
          (⟨kind, location, spaced⟩ :: ·)
termination_by text.length
decreasing_by all_goals exact piece_rest_length _h

/-- The tokens of a source, the last of which is the end of the input. -/
def tokenize (source : String) : Except SyntaxError (List Token) :=
  scan Location.start true source.toList

end Gatehouse.Rego
