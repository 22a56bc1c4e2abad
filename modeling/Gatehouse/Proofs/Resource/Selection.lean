import Gatehouse.Resource.Selection
import Gatehouse.Proofs.Filter.Grammar

/-!
# Filters ask for the addresses they were made of

An address may hold anything: quotes, backslashes, line breaks, operators, whole filters.  The filter that
asks for some addresses (`onAnyOf`) asks for these and no others all the same.

1. **Quoted texts** (`stringBody_escaped`).  Escaping puts a backslash before quotes and backslashes, and
   neither is one of the three letters that mean something else after a backslash.  So what a reader of
   strings takes off an escaped text is that text, up to the first quote that was not escaped.
2. **Tokens** (`Lexes`).  The words of a text are the words of its first piece and of what is behind it.
   They are the same wherever the text stands; only the positions differ.
3. **Expressions.**  The words are derived by the grammar, test by test from the left.
4. **Documents** (`isAt_holds`).  A test of one address is one of equality of values, and a value that
   equals a text is that text.
-/

namespace Gatehouse.Resource

open Gatehouse.Filter

/-! ## Quoted texts -/

/-- A character of a text between quotes. -/
def escape (c : Char) : List Char := if c = '\\' || c = '"' then ['\\', c] else [c]

theorem toList_literal (text : String) :
    (literal text).toList = '"' :: (text.toList.flatMap escape ++ ['"']) := String.toList_ofList

/-- Escaping is to put a backslash before every backslash, and then before every quote. -/
theorem flatMap_escape (cs : List Char) :
    cs.flatMap escape =
      (cs.flatMap fun c => if c = '\\' then ['\\', '\\'] else [c]).flatMap
        fun c => if c = '"' then ['\\', '"'] else [c] := by
  rw [List.flatMap_assoc]
  congr 1
  funext c
  by_cases hbackslash : c = '\\'
  · subst hbackslash
    rfl
  · by_cases hquote : c = '"'
    · subst hquote
      rfl
    · simp [escape, hbackslash, hquote]

/-- A string goes on after a character that means nothing. -/
theorem stringBody_cons {quote c : Char} (hquote : c ≠ quote) (hbackslash : c ≠ '\\') {cs : List Char}
    (hne : cs ≠ []) :
    stringBody quote (c :: cs) =
      (stringBody quote cs).map fun p => (c :: p.1, c :: p.2.1, p.2.2) := by
  obtain ⟨d, ds, rfl⟩ := List.exists_cons_of_ne_nil hne
  rw [stringBody, if_neg hquote, if_neg hbackslash]
  cases stringBody quote (d :: ds) <;> rfl

/-- And after a backslash with the next character. -/
theorem stringBody_backslash {quote : Char} (hquote : '\\' ≠ quote) (c : Char) (cs : List Char) :
    stringBody quote ('\\' :: c :: cs) =
      (stringBody quote cs).map fun p => (unescape c :: p.1, '\\' :: c :: p.2.1, p.2.2) := by
  rw [stringBody, if_neg hquote, if_pos rfl]
  cases stringBody quote cs <;> rfl

/-- **An escaped text is read back**, and nothing behind its closing quote is touched. -/
theorem stringBody_escaped (cs rest : List Char) :
    stringBody '"' (cs.flatMap escape ++ '"' :: rest) = some (cs, cs.flatMap escape ++ ['"'], rest) := by
  induction cs with
  | nil => cases rest <;> rfl
  | cons c cs ih =>
    rw [List.flatMap_cons, List.append_assoc]
    by_cases hmark : c = '\\' ∨ c = '"'
    · have hescape : escape c = ['\\', c] := by rw [escape, if_pos (by simpa using hmark)]
      have hunescape : unescape c = c := by rcases hmark with rfl | rfl <;> rfl
      rw [hescape, List.cons_append, List.singleton_append, stringBody_backslash (by decide), ih, hunescape]
      rfl
    · have hescape : escape c = [c] := by simpa [escape] using hmark
      rw [not_or] at hmark
      rw [hescape, List.singleton_append, stringBody_cons hmark.2 hmark.1 (by simp), ih]
      rfl

/-- A literal is one piece, whatever comes behind it. -/
theorem piece_literal (text : String) (rest : List Char) :
    piece '"' (text.toList.flatMap escape ++ '"' :: rest) =
      .ok ⟨some (.string text), '"' :: (text.toList.flatMap escape ++ ['"']), rest⟩ := by
  rw [piece, if_neg (by decide), if_pos (by decide), stringBody_escaped]
  simp

/-! ## Tokens -/

section Scan

variable {c : Char} {cs lexeme rest : List Char} {w : Word}

theorem scan_blank (hpiece : piece c cs = .ok ⟨none, lexeme, rest⟩) (position : Nat) :
    scan position (c :: cs) = scan (position + byteCount lexeme) rest := by
  rw [scan]
  split
  · rename_i heq
    cases heq.symm.trans hpiece
  · rename_i heq
    obtain rfl := Except.ok.inj (heq.symm.trans hpiece)
    rfl

theorem scan_word (hpiece : piece c cs = .ok ⟨some w, lexeme, rest⟩) (position : Nat) :
    scan position (c :: cs) = (scan (position + byteCount lexeme) rest).map (⟨w, position⟩ :: ·) := by
  rw [scan]
  split
  · rename_i heq
    cases heq.symm.trans hpiece
  · rename_i heq
    obtain rfl := Except.ok.inj (heq.symm.trans hpiece)
    rfl

end Scan

/-- The text has these words, wherever it stands. -/
def Lexes (text : List Char) (ws : List Word) : Prop :=
  ∀ position, ∃ tokens, scan position text = .ok tokens ∧ words tokens = ws

namespace Lexes

variable {c : Char} {cs lexeme rest : List Char} {w : Word} {ws : List Word}

theorem nil : Lexes [] [] := fun _ => ⟨[], by rw [scan], rfl⟩

theorem blank (hpiece : piece c cs = .ok ⟨none, lexeme, rest⟩) (h : Lexes rest ws) :
    Lexes (c :: cs) ws := by
  intro position
  rw [scan_blank hpiece]
  exact h _

theorem word (hpiece : piece c cs = .ok ⟨some w, lexeme, rest⟩) (h : Lexes rest ws) :
    Lexes (c :: cs) (w :: ws) := by
  intro position
  obtain ⟨tokens, hscan, hwords⟩ := h (position + byteCount lexeme)
  refine ⟨⟨w, position⟩ :: tokens, ?_, congrArg (w :: ·) hwords⟩
  rw [scan_word hpiece, hscan]
  rfl

end Lexes

/-- The words that test an address. -/
def clause (uri : String) : List Word :=
  [.name "resource", .dot, .name "uri", .comparison .eq, .string uri]

/-- The text of a test has the words of the test. -/
theorem lexes_clause (uri : String) {rest : List Char} {ws : List Word} (h : Lexes rest ws) :
    Lexes (("resource.uri == " ++ literal uri).toList ++ rest) (clause uri ++ ws) := by
  have htext : ("resource.uri == " ++ literal uri).toList ++ rest =
      ['r', 'e', 's', 'o', 'u', 'r', 'c', 'e', '.', 'u', 'r', 'i', ' ', '=', '=', ' '] ++
        '"' :: (uri.toList.flatMap escape ++ '"' :: rest) := by
    simp [toList_literal]
  have hliteral := Lexes.word (piece_literal uri rest) h
  rw [htext]
  exact .word rfl (.word rfl (.word rfl (.blank rfl (.word rfl (.blank rfl hliteral)))))

/-- The words of a filter are those of its tests, with `||` in between. -/
theorem lexes_onAnyOf (uri : String) (uris : List String) :
    Lexes (onAnyOf (uri :: uris)).toList (clause uri ++ uris.flatMap fun v => .or :: clause v) := by
  induction uris generalizing uri with
  | nil => simpa [onAnyOf] using lexes_clause uri .nil
  | cons v uris ih =>
    have htext : (onAnyOf (uri :: v :: uris)).toList =
        ("resource.uri == " ++ literal uri).toList ++ " || ".toList ++ (onAnyOf (v :: uris)).toList := by
      rw [onAnyOf, List.map_cons, List.map_cons, String.intercalate_cons_cons, String.toList_append,
        String.toList_append]
      rfl
    rw [htext, List.append_assoc]
    have hor : " || ".toList ++ (onAnyOf (v :: uris)).toList =
        ' ' :: '|' :: '|' :: ' ' :: (onAnyOf (v :: uris)).toList := by
      simp
    rw [hor]
    exact lexes_clause uri (.blank rfl (.word rfl (.blank rfl (ih v))))

/-! ## Expressions -/

/-- The test of an address. -/
def isAt (uri : String) : Expr := .compare (.field ["resource", "uri"]) .eq (.literal (.string uri))

/-- The tests of some addresses, joined to the left. -/
def isAtAny (uri : String) (uris : List String) : Expr := uris.foldl (fun e v => .or e (isAt v)) (isAt uri)

theorem derives_clause (uri : String) : Derives .and (clause uri) (isAt uri) :=
  .ofUnary (.ofTest (.compare (.field (.more "resource" (.last "uri"))) .eq (.literal (.string uri))))

/-- More tests are joined to what there is. -/
theorem derives_clauses {ws : List Word} {e : Expr} (h : Derives .expr ws e) (uris : List String) :
    Derives .expr (ws ++ uris.flatMap fun v => .or :: clause v)
      (uris.foldl (fun e v => .or e (isAt v)) e) := by
  induction uris generalizing ws e with
  | nil => simpa using h
  | cons v uris ih => simpa using ih (h.or (derives_clause v))

theorem ofText?_onAnyOf (uri : String) (uris : List String) :
    Expr.ofText? (onAnyOf (uri :: uris)) = .ok (isAtAny uri uris) := by
  obtain ⟨tokens, hscan, hwords⟩ := lexes_onAnyOf uri uris 0
  have hderives : Derives .expr (words tokens) (isAtAny uri uris) :=
    hwords ▸ derives_clauses (.ofAnd (derives_clause uri)) uris
  rw [Expr.ofText?, tokenize, hscan]
  show (Expr.ofTokens? tokens).mapError _ = _
  rw [ofTokens?_of_derives hderives]
  rfl

/-! ## Documents -/

/-- A value that equals a text is that text. -/
theorem equal_string {value : Json} {s : String} : equal value (.string s) = true ↔ value = .string s := by
  cases value <;> simp [equal, Json.same]

theorem isAt_holds {uri : String} {document : Json} :
    (isAt uri).holds document = true ↔
      Json.lookup? ["resource", "uri"] document = some (.string uri) := by
  show equal ((Json.lookup? ["resource", "uri"] document).getD .null) (.string uri) = true ↔ _
  rw [equal_string]
  cases Json.lookup? ["resource", "uri"] document <;> simp

theorem foldl_or_holds {e : Expr} {uris : List String} {document : Json} :
    (uris.foldl (fun e v => .or e (isAt v)) e).holds document = true ↔
      e.holds document = true ∨
        ∃ v ∈ uris, Json.lookup? ["resource", "uri"] document = some (.string v) := by
  induction uris generalizing e with
  | nil => simp
  | cons v uris ih =>
    rw [List.foldl_cons, ih, Expr.holds, Bool.or_eq_true, isAt_holds, or_assoc]
    simp only [List.mem_cons, exists_eq_or_imp]

/-- **Nothing in an address gets out of its quotes.**  The filter on any of some addresses is read as the
tests of these addresses, joined to the left in their order; it holds of the documents whose
`resource.uri` is one of them; and any text, as a literal, is the one token that it should be. -/
theorem onAnyOf_selects (uri : String) (uris : List String) :
    Expr.ofText? (onAnyOf (uri :: uris)) = .ok (isAtAny uri uris) ∧
      (∀ document, (isAtAny uri uris).holds document = true ↔
        ∃ v ∈ uri :: uris, Json.lookup? ["resource", "uri"] document = some (.string v)) ∧
      ∀ text, tokenize (literal text) = .ok [⟨.string text, 0⟩] := by
  refine ⟨ofText?_onAnyOf uri uris, fun document => ?_, fun text => ?_⟩
  · rw [isAtAny, foldl_or_holds, isAt_holds]
    simp only [List.mem_cons, exists_eq_or_imp]
  · rw [tokenize, toList_literal, scan_word (piece_literal text []), scan]
    rfl

example : Expr.ofText? (onAnyOf ["\" || true || \""]) = .ok (isAt "\" || true || \"") :=
  ofText?_onAnyOf _ []

end Gatehouse.Resource
