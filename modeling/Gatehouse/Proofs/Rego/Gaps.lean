import Gatehouse.Proofs.Rego.Lexemes

/-!
# Gaps between tokens

1. **Gap characters** (`isGap`).  A blank, a line break or the mark of a comment stands inside a string or
   nowhere in a token.  So what is behind a gap has no say in how long the token before it is
   (`IsLongest.append_gap`).
2. **Words** (`scan_word`).  So a lexeme with a gap behind it has the token that it spells, wherever it stands.
-/

namespace Gatehouse.Rego

open Gatehouse.Text

variable {kind : Kind} {lexeme rest gap : List Char} {c : Char}

/-! ## Gap characters -/

/-- A character that ends a token which is no string. -/
def isGap (c : Char) : Bool := isBlank c || c = '#'

/-- The text is empty or begins with a gap. -/
def StartsGap (text : List Char) : Prop := ∀ c, text.head? = some c → isGap c = true

theorem startsGap_nil : StartsGap [] := nofun

theorem startsGap_cons (hc : isGap c = true) (cs : List Char) : StartsGap (c :: cs) := fun _ hd =>
  Option.some.inj hd ▸ hc

theorem isGap_eq_false_of_isNamePart (h : isNamePart c = true) : isGap c = false := by
  have hmark : c ≠ '#' := ne_of_isNamePart h (by decide)
  simp [isGap, isBlank_eq_false_of_isNamePart h, hmark]

theorem NumberRest.isGap_eq_false {p x : Bool} {cs : List Char} (h : NumberRest p x cs) :
    ∀ d ∈ cs, isGap d = false := by
  have hdigit : ∀ d : Char, d.isDigit = true → isGap d = false := fun d hd =>
    isGap_eq_false_of_isNamePart (isNamePart_of_isDigit hd)
  induction h with
  | nil => exact nofun
  | digit hd _ ih => exact List.forall_mem_cons.2 ⟨hdigit _ hd, ih⟩
  | point _ _ ih => exact List.forall_mem_cons.2 ⟨by decide, ih⟩
  | exponent he _ ih => exact List.forall_mem_cons.2 ⟨by rcases he with rfl | rfl <;> decide, ih⟩
  | signed he hs _ ih =>
    refine List.forall_mem_cons.2 ⟨by rcases he with rfl | rfl <;> decide, List.forall_mem_cons.2 ⟨?_, ih⟩⟩
    rcases hs with rfl | rfl <;> decide

theorem Symbol.isGap_eq_false (s : Symbol) : ∀ d ∈ s.text.toList, isGap d = false := by
  have hall : s.text.toList.all (!isGap ·) = true := by cases s <;> decide
  simpa using hall

/-- A character that starts strings, and nothing else. -/
def isQuote (c : Char) : Bool := c = '"' || c = rawQuote

/-- A token is a string, which starts with a quote; or it is the newline; or there is no gap in it. -/
theorem Spells.cases_gap (h : Spells kind lexeme) :
    ((∃ value, kind = .string value) ∧ ∃ c cs, lexeme = c :: cs ∧ isQuote c = true) ∨
      kind = .newline ∧ lexeme = ['\n'] ∨
        (∀ c ∈ lexeme, isGap c = false) ∧ ∀ c, lexeme.head? = some c → isQuote c = false := by
  have hquote : ∀ d : Char, isNamePart d = true → isQuote d = false := fun d hd => by
    have hplain : d ≠ '"' := ne_of_isNamePart hd (by decide)
    have hraw : d ≠ rawQuote := ne_of_isNamePart hd (by decide)
    simp [isQuote, hplain, hraw]
  cases h with
  | name hc hcs =>
    have hpart := isNamePart_of_isNameStart hc
    refine .inr (.inr ⟨List.forall_mem_cons.2 ⟨isGap_eq_false_of_isNamePart hpart, fun d hd =>
      isGap_eq_false_of_isNamePart (hcs d hd)⟩, fun d hd => Option.some.inj hd ▸ hquote _ hpart⟩)
  | number hc hcs =>
    have hpart := isNamePart_of_isDigit hc
    exact .inr (.inr ⟨List.forall_mem_cons.2 ⟨isGap_eq_false_of_isNamePart hpart, hcs.isGap_eq_false⟩,
      fun d hd => Option.some.inj hd ▸ hquote _ hpart⟩)
  | quoted => exact .inl ⟨⟨_, rfl⟩, _, _, rfl, by decide⟩
  | raw => exact .inl ⟨⟨_, rfl⟩, _, _, rfl, by decide⟩
  | symbol s =>
    have hfirst : s.text.toList.head?.all (!isQuote ·) = true := by cases s <;> decide
    exact .inr (.inr ⟨s.isGap_eq_false, fun d hd => by simpa [hd] using hfirst⟩)
  | newline => exact .inr (.inl ⟨rfl, rfl⟩)

/-! ## What is behind a gap -/

theorem isLongest_nil (lexeme : List Char) : IsLongest lexeme [] := fun _ _ _ hleads => by
  simpa using hleads.length_le

theorem IsLongest.cut (h : IsLongest lexeme (rest ++ gap)) : IsLongest lexeme rest := fun kind other hother hleads =>
  h kind other hother (hleads.trans ⟨gap, by simp⟩)

/-- A string ends at its quote, whatever is behind it. -/
theorem isLongest_string {value : String} (h : Spells (.string value) lexeme) (rest : List Char) :
    IsLongest lexeme rest := by
  cases h with
  | @quoted value text h =>
    have hpiece : piece Location.start '"' (text ++ '"' :: rest) =
        .ok ⟨some (.string (String.ofList value)), '"' :: (text ++ ['"']), rest⟩ := by
      rw [piece, if_neg (by decide), if_neg (by decide), if_neg (by decide), if_pos rfl,
        quotedBody_of_quotes h]
    exact isLongest_of_piece hpiece
  | @raw value h =>
    have hpiece : piece Location.start rawQuote (value ++ rawQuote :: rest) =
        .ok ⟨some (.string (String.ofList value)), rawQuote :: (value ++ [rawQuote]), rest⟩ := by
      rw [piece, if_neg (by decide), if_neg (by decide), if_neg (by decide), if_neg (by decide),
        if_pos rfl, rawBody_eq_some_iff.2 ⟨rfl, h⟩]
      rfl
    exact isLongest_of_piece hpiece

/-- What stands before a gap does not reach into it. -/
theorem prefix_of_prefix_append_gap {other text : List Char} (hother : ∀ c ∈ other, isGap c = false)
    (hgap : StartsGap gap) (h : other <+: text ++ gap) : other <+: text := by
  induction text generalizing other with
  | nil =>
    cases other with
    | nil => exact List.nil_prefix
    | cons d ds =>
      obtain ⟨tail, rfl⟩ := h
      have hd := hgap d rfl
      rw [hother d List.mem_cons_self] at hd
      cases hd
  | cons d text ih =>
    cases other with
    | nil => exact List.nil_prefix
    | cons e es =>
      obtain ⟨rfl, hes⟩ := List.cons_prefix_cons.1 h
      exact List.cons_prefix_cons.2 ⟨rfl, ih (fun c hc => hother c (List.mem_cons_of_mem e hc)) hes⟩

/-- **What is behind a gap does not make a token longer.** -/
theorem IsLongest.append_gap (hspells : Spells kind lexeme) (h : IsLongest lexeme rest) (hgap : StartsGap gap) :
    IsLongest lexeme (rest ++ gap) := by
  intro kind' other hother hleads
  rcases hspells.cases_gap with ⟨⟨value, rfl⟩, -⟩ | ⟨-, rfl⟩ | ⟨-, hquote⟩
  · exact isLongest_string hspells _ kind' other hother hleads
  · have hpiece : piece Location.start '\n' (rest ++ gap) = .ok ⟨some .newline, ['\n'], rest ++ gap⟩ := rfl
    exact isLongest_of_piece hpiece kind' other hother hleads
  · rcases hother.cases_gap with ⟨-, d, ds, rfl, hd⟩ | ⟨-, rfl⟩ | ⟨hgaps, -⟩
    · -- a token that starts with a quote is a string
      obtain ⟨e, es, rfl⟩ := List.exists_cons_of_ne_nil hspells.ne_nil
      obtain ⟨rfl, -⟩ := List.cons_prefix_cons.1 hleads
      rw [hquote d rfl] at hd
      cases hd
    · exact List.length_pos_iff.2 hspells.ne_nil
    · rw [← List.append_assoc] at hleads
      exact h kind' other hother (prefix_of_prefix_append_gap hgaps hgap hleads)

/-! ## Words -/

theorem scan_word (h : Spells kind lexeme) (hgap : StartsGap gap) (location : Location) (spaced : Bool) :
    scan location spaced (lexeme ++ gap) =
      (scan (location.after lexeme) (kind = .newline) gap).map (⟨kind, location, spaced⟩ :: ·) := by
  obtain ⟨c, cs, rfl⟩ := List.exists_cons_of_ne_nil h.ne_nil
  exact scan_token (piece_of_isLongest h (by simpa using (isLongest_nil _).append_gap h hgap) location)

theorem scan_blank (hc : isBlank c = true) (hline : c ≠ '\n') (location : Location) (spaced : Bool)
    (rest : List Char) : scan location spaced (c :: rest) = scan (location.after [c]) true rest :=
  scan_trivia ((IsTrivia.blank hc hline).piece location)

end Gatehouse.Rego
