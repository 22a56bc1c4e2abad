import Gatehouse.Filter.Token
import Gatehouse.Text.Blank
import Gatehouse.Text.Digits
import Gatehouse.Text.Piece

/-!
# From a filter's text to its tokens

`tokenize` splits the text of a filter.

1. **Program.**  `piece` takes one piece off the head of the text, a word or a blank; `scan` repeats
   it, adding up the bytes that went by.
2. **Strings** stand between quotes of either kind.  A backslash takes the next character as it is,
   apart from the three letters for a line feed, a tab and a carriage return.
3. **Numbers** are a sign, if a digit follows it, and then all digits and points that follow; more
   than one point is an error rather than the end of the number.
4. **The crux (`piece_append`).**  Lexeme and rest together are the text and the lexeme is not empty,
   so `scan` ends.
-/

namespace Gatehouse.Filter

open Gatehouse.Text

/-! ## Words -/

/-- What the character after a backslash stands for. -/
def unescape : Char → Char
  | 'n' => '\n'
  | 't' => '\t'
  | 'r' => '\r'
  | c => c

/-- A string after its opening quote: its value, its characters and what follows. -/
def stringBody (quote : Char) : List Char → Option (List Char × List Char × List Char)
  | [] => none
  | [c] => if c = quote then some ([], [c], []) else none
  | c :: e :: cs =>
    if c = quote then some ([], [c], e :: cs)
    else if c = '\\' then do
      let (value, lexeme, rest) ← stringBody quote cs
      return (unescape e :: value, c :: e :: lexeme, rest)
    else do
      let (value, lexeme, rest) ← stringBody quote (e :: cs)
      return (c :: value, c :: lexeme, rest)

/-- A character of a number after its first. -/
def isNumberPart (c : Char) : Bool := c.isDigit || c = '.'

/-- The number that digits with at most one point write. -/
def unsigned? (negative : Bool) (cs : List Char) : Option Double :=
  let whole := cs.takeWhile (· ≠ '.')
  let places := (cs.dropWhile (· ≠ '.')).drop 1
  if places.contains '.' then none
  else some (Double.ofDecimal negative (ofDigits (whole ++ places)) (-(places.length : Int)))

/-- The number that a sign or a digit starts. -/
def number? : List Char → Option Double
  | '-' :: cs => unsigned? true cs
  | cs => unsigned? false cs

/-- A character that starts a name. -/
def isNameStart (c : Char) : Bool := c.isAlpha || c = '_'

/-- A character inside a name. -/
def isNamePart (c : Char) : Bool := c.isAlphanum || c = '_'

/-- The word that a name is: three of them are values. -/
def ofName (name : String) : Word :=
  if name = "true" then .bool true
  else if name = "false" then .bool false
  else if name = "null" then .null
  else .name name

/-- The word of two marks. -/
def markPair? : Char → Char → Option Word
  | '=', '=' => some (.comparison .eq)
  | '!', '=' => some (.comparison .neq)
  | '<', '=' => some (.comparison .lte)
  | '>', '=' => some (.comparison .gte)
  | '&', '&' => some .and
  | '|', '|' => some .or
  | _, _ => none

/-- The word of one mark. -/
def mark? : Char → Option Word
  | '(' => some .lparen
  | ')' => some .rparen
  | '.' => some .dot
  | ',' => some .comma
  | '!' => some .not
  | '<' => some (.comparison .lt)
  | '>' => some (.comparison .gt)
  | _ => none

/-- The longest mark at the head of a text. -/
def markPiece? (c : Char) : List Char → Option (Piece Word)
  | [] => (mark? c).map fun w => ⟨some w, [c], []⟩
  | d :: cs =>
    match markPair? c d with
    | some w => some ⟨some w, [c, d], cs⟩
    | none => (mark? c).map fun w => ⟨some w, [c], d :: cs⟩

/-- The piece at the head of a text. -/
def piece (c : Char) (cs : List Char) : Except Complaint (Piece Word) :=
  if isBlank c then .ok ⟨none, [c], cs⟩
  else if c = '"' || c = '\'' then
    match stringBody c cs with
    | some (value, lexeme, rest) =>
      .ok ⟨some (.string (String.ofList value)), c :: lexeme, rest⟩
    | none => .error .unterminatedString
  else if c.isDigit || (c = '-' && (cs.head?.any Char.isDigit)) then
    match number? (c :: cs.takeWhile isNumberPart) with
    | some d => .ok ⟨some (.number d), c :: cs.takeWhile isNumberPart, cs.dropWhile isNumberPart⟩
    | none => .error (.invalidNumber (String.ofList (c :: cs.takeWhile isNumberPart)))
  else if isNameStart c then
    let lexeme := c :: cs.takeWhile isNamePart
    .ok ⟨some (ofName (String.ofList lexeme)), lexeme, cs.dropWhile isNamePart⟩
  else
    match markPiece? c cs with
    | some p => .ok p
    | none => .error (.unexpectedChar c)

/-! ### Nothing is lost -/

theorem stringBody_append {quote : Char} {cs value lexeme rest : List Char}
    (h : stringBody quote cs = some (value, lexeme, rest)) : lexeme ++ rest = cs := by
  fun_induction stringBody quote cs generalizing value lexeme rest with
  | case1 => simp at h
  | case2 => simp at h; simp [← h.2.1, ← h.2.2]
  | case3 => simp at h
  | case4 => simp at h; simp [← h.2.1, ← h.2.2]
  | case5 e cs _ ih =>
    simp only [Option.bind_eq_bind, Option.bind_eq_some_iff] at h
    obtain ⟨⟨v, l, r⟩, hq, he⟩ := h
    simp at he
    simp [← he.2.1, ← he.2.2, ih hq]
  | case6 c e cs _ _ ih =>
    simp only [Option.bind_eq_bind, Option.bind_eq_some_iff] at h
    obtain ⟨⟨v, l, r⟩, hq, he⟩ := h
    simp at he
    simp [← he.2.1, ← he.2.2, ih hq]

theorem markPiece?_append {c : Char} {cs : List Char} {p : Piece Word}
    (h : markPiece? c cs = some p) : p.lexeme ++ p.rest = c :: cs ∧ p.lexeme ≠ [] := by
  unfold markPiece? at h
  split at h
  · obtain ⟨w, -, rfl⟩ := Option.map_eq_some_iff.1 h; simp
  · split at h
    · obtain rfl := Option.some.inj h; simp
    · obtain ⟨w, -, rfl⟩ := Option.map_eq_some_iff.1 h; simp

/-- A piece and what follows it are the text, and the piece is not empty. -/
theorem piece_append {c : Char} {cs : List Char} {p : Piece Word} (h : piece c cs = .ok p) :
    p.lexeme ++ p.rest = c :: cs ∧ p.lexeme ≠ [] := by
  unfold piece at h
  repeat' split at h
  all_goals try contradiction
  · obtain rfl := Except.ok.inj h; simp
  · next hs => obtain rfl := Except.ok.inj h; simp [stringBody_append hs]
  · obtain rfl := Except.ok.inj h; simp
  · obtain rfl := Except.ok.inj h; simp
  · next hm => obtain rfl := Except.ok.inj h; exact markPiece?_append hm

theorem piece_rest_length {c : Char} {cs : List Char} {p : Piece Word} (h : piece c cs = .ok p) :
    p.rest.length < (c :: cs).length := by
  obtain ⟨happ, hne⟩ := piece_append h
  rw [← happ, List.length_append]
  have := List.length_pos_iff.2 hne
  omega

/-! ## Tokens -/

/-- The bytes of some characters. -/
def byteCount (cs : List Char) : Nat := cs.foldr (fun c n => c.utf8Size + n) 0

/-- The tokens of a text that starts at a position. -/
def scan (position : Nat) (text : List Char) : Except FilterError (List Token) :=
  match text with
  | [] => .ok []
  | c :: cs =>
    match _h : piece c cs with
    | .error complaint => .error ⟨complaint, position⟩
    | .ok p =>
      match p.kind with
      | none => scan (position + byteCount p.lexeme) p.rest
      | some word => (scan (position + byteCount p.lexeme) p.rest).map (⟨word, position⟩ :: ·)
termination_by text.length
decreasing_by all_goals exact piece_rest_length _h

/-- The tokens of a filter. -/
def tokenize (text : String) : Except FilterError (List Token) := scan 0 text.toList

end Gatehouse.Filter
