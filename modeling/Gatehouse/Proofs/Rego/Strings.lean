import Gatehouse.Proofs.Json.Strings
import Gatehouse.Proofs.Rego.Lexemes

/-!
# Strings of policies and strings of JSON

A string of a policy in double quotes looks like a string of JSON, and the lexer takes every literal of
JSON for one string, to its last quote.  It also gives the string the same value, with one exception: it
reads escapes by number one at a time, and half of a surrogate pair is no character.  So a character that
JSON may write by a pair is two replacement characters here.

1. **Characters** (`seen`).  What the lexer sees in a written character.
2. **Literals** (`tokenize_literal`).  The tokens of a literal, and when the value is the one that is meant.
-/

namespace Gatehouse.Rego

open Gatehouse.Text

/-! ## Characters -/

/-- The characters that the lexer sees in a written one: two in a pair, and else the one that is meant. -/
def seen (w : Json.Writing) : List Char :=
  if w.isPair then ['\ufffd', '\ufffd'] else [w.char]

/-- The letters of JSON stand for the same characters here. -/
theorem unescape_of_shortEscape? {e c : Char} (h : Json.shortEscape? e = some c) : unescape e = c := by
  unfold Json.shortEscape? at h
  split at h
  all_goals first | contradiction | exact Option.some.inj h

theorem ofUnit_of_isLead {n : Nat} (h : isLead n = true) : ofUnit n = '\ufffd' := by
  simp [ofUnit, h]

theorem ofUnit_of_isTrail {n : Nat} (h : isTrail n = true) : ofUnit n = '\ufffd' := by
  simp [ofUnit, h]

/-- Written characters can be written here too, and are what is seen in them. -/
theorem quotes_writings (ws : List Json.Writing) :
    Quotes (ws.flatMap seen) (ws.flatMap Json.Writing.text) := by
  induction ws with
  | nil => exact .nil
  | cons w ws ih =>
    cases w with
    | plain c hquote hbackslash hcontrol =>
      have hline : c ≠ '\n' := by
        rintro rfl
        exact absurd hcontrol (by decide)
      exact .plain hquote hbackslash hline ih
    | letter e c hstands =>
      have hescape := Quotes.escape (Json.ne_u_of_shortEscape? hstands) ih
      rwa [unescape_of_shortEscape? hstands] at hescape
    | number a b c d n hdigits hlead htrail =>
      have hunit := Quotes.unit hdigits ih
      have hof : ofUnit n = Char.ofNat n := by simp [ofUnit, hlead, htrail]
      rwa [hof] at hunit
    | pair a b c d e f g h n m hleadDigits htrailDigits hlead htrail =>
      have hunits := Quotes.unit hleadDigits (Quotes.unit htrailDigits ih)
      rwa [ofUnit_of_isLead hlead, ofUnit_of_isTrail htrail] at hunits

/-- There is one more character to be seen for every pair. -/
theorem length_seen (ws : List Json.Writing) :
    (ws.flatMap seen).length = ws.length + ws.countP Json.Writing.isPair := by
  induction ws with
  | nil => rfl
  | cons w ws ih =>
    rw [List.flatMap_cons, List.length_append, ih, List.length_cons, List.countP_cons, seen]
    split
    · simp only [List.length_cons, List.length_nil]
      omega
    · simp only [List.length_cons, List.length_nil]
      omega

/-- What is seen is what is meant, unless there are pairs. -/
theorem flatMap_seen_eq_iff {ws : List Json.Writing} :
    ws.flatMap seen = ws.map Json.Writing.char ↔ ∀ w ∈ ws, w.isPair = false := by
  constructor
  · intro h
    have hlength := congrArg List.length h
    rw [length_seen, List.length_map] at hlength
    have hnone : ws.countP Json.Writing.isPair = 0 := by omega
    intro w hw
    simpa using List.countP_eq_zero.1 hnone w hw
  · intro h
    induction ws with
    | nil => rfl
    | cons w ws ih =>
      obtain ⟨hw, hws⟩ := List.forall_mem_cons.1 h
      rw [List.flatMap_cons, List.map_cons, ih hws, seen, hw]
      rfl

/-! ## Literals -/

/-- The tokens of a source that is one string. -/
def stringTokens (source value : String) : List Token :=
  [⟨.string value, Location.start, true⟩, ⟨.endOfInput, Location.start.after source.toList, false⟩]

/-- A literal is one string up to the end of the input. -/
theorem tokenize_literal (ws : List Json.Writing) :
    tokenize (Json.literal ws) = .ok (stringTokens (Json.literal ws) (String.ofList (ws.flatMap seen))) := by
  have htext : (Json.literal ws).toList = '"' :: (ws.flatMap Json.Writing.text ++ ['"']) :=
    String.toList_ofList
  have hpiece : piece Location.start '"' (ws.flatMap Json.Writing.text ++ ['"']) =
      .ok ⟨some (.string (String.ofList (ws.flatMap seen))),
        '"' :: (ws.flatMap Json.Writing.text ++ ['"']), []⟩ := by
    rw [piece, if_neg (by decide), if_neg (by decide), if_neg (by decide), if_pos rfl,
      quotedBody_of_quotes (quotes_writings ws) []]
  rw [tokenize, stringTokens, htext, scan_token hpiece, scan]
  rfl

/-- The token of a literal has the value that is meant exactly if there are no pairs. -/
theorem tokenize_literal_eq_iff {ws : List Json.Writing} :
    tokenize (Json.literal ws) =
        .ok (stringTokens (Json.literal ws) (String.ofList (ws.map Json.Writing.char))) ↔
      ∀ w ∈ ws, w.isPair = false := by
  rw [tokenize_literal, ← flatMap_seen_eq_iff]
  constructor
  · intro h
    obtain ⟨htoken, -⟩ := List.cons.inj (Except.ok.inj h)
    have hvalue := Kind.string.inj (congrArg Token.kind htoken)
    exact String.ofList_injective hvalue
  · intro h
    rw [h]

/-- **Strings of policies are strings of JSON, but for surrogate pairs.**  The texts that JSON reads as a
string, from the first quote to the last, are the literals; each is one token and the end of the input.  The
token's value has two replacement characters for each pair, and is what JSON reads exactly if there is none.
So every string has a literal that is read as this string: the one that is printed. -/
theorem tokenize_json_string (text value : String) :
    ((Json.read? text = some (.string value) ∧
        text.toList.head? = some '"' ∧ text.toList.getLast? = some '"') ↔
      ∃ ws : List Json.Writing, text = Json.literal ws ∧ value = String.ofList (ws.map Json.Writing.char) ∧
        tokenize text = .ok (stringTokens text (String.ofList (ws.flatMap seen))) ∧
        (tokenize text = .ok (stringTokens text value) ↔ ∀ w ∈ ws, w.isPair = false)) ∧
    tokenize (String.ofList (Json.stringText value)) =
      .ok (stringTokens (String.ofList (Json.stringText value)) value) := by
  constructor
  · rw [Json.read?_eq_string_iff]
    constructor
    · rintro ⟨ws, rfl, rfl⟩
      exact ⟨ws, rfl, rfl, tokenize_literal ws, tokenize_literal_eq_iff⟩
    · rintro ⟨ws, htext, hvalue, -⟩
      exact ⟨ws, htext, hvalue⟩
  · obtain ⟨ws, htext, hvalue, hpair⟩ := Json.exists_literal_stringText value
    have htokens := tokenize_literal_eq_iff.2 hpair
    rwa [htext, hvalue] at htokens

/-- A character that is written by a pair is not read. -/
theorem not_forall_tokenize_json_string :
    ¬ ∀ text value : String, Json.read? text = some (.string value) → text.toList.head? = some '"' →
      text.toList.getLast? = some '"' → tokenize text = .ok (stringTokens text value) := by
  intro h
  obtain ⟨w, hliteral, hpair⟩ : ∃ w : Json.Writing,
      "\"\\ud83d\\ude00\"" = Json.literal [w] ∧ w.isPair = true :=
    ⟨.pair 'd' '8' '3' 'd' 'd' 'e' '0' '0' 0xd83d 0xde00 (by decide) (by decide) (by decide) (by decide),
      by decide +kernel, rfl⟩
  obtain ⟨hread, hfirst, hlast⟩ := Json.read?_eq_string_iff.2 ⟨[w], hliteral, rfl⟩
  have htokens := h _ _ hread hfirst hlast
  rw [hliteral] at htokens
  have hsingle := tokenize_literal_eq_iff.1 htokens w (List.mem_singleton.2 rfl)
  exact absurd (hpair.symm.trans hsingle) (by decide)

end Gatehouse.Rego
