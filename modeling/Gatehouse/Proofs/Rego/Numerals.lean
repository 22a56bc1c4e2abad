import Mathlib.Data.List.Basic
import Gatehouse.Proofs.Rego.Lexemes
import Gatehouse.Proofs.Text.Digits

/-!
# Numbers of policies and numerals

A numeral is made of digits, perhaps a point and digits, and perhaps an exponent, which is a mark, perhaps a
sign, and digits again.  The lexer leaves a point alone that has no digit behind it, but it takes the mark of
an exponent whatever follows.  So its numbers are the numerals, and also the texts that break off behind such
a mark.

1. **Forms** (`IsNumeral`, `IsNumber`).  Numerals, and numbers, whose exponents may lack their digits.  The
   last character tells them apart.
2. **The crux** (`spells_number_iff`).  The numbers are what number tokens are spelled with.  The lexer carries
   two flags through one run of characters; the parts are found again where it turned them.
3. **Longest** (`IsLongestOf`).  So a number token is the longest number at its place, and the longest numeral
   there is the token without the mark at its end.
4. **Places** (`IsLeftAt`).  A place of a source tells what is left of the source there.
-/

namespace Gatehouse.Rego

open Gatehouse.Text

variable {cs ds mark rest lexeme : List Char}

/-! ## Forms -/

/-- The mark of an exponent, perhaps with a sign. -/
inductive IsExponentMark : List Char → Prop
  | plain {e : Char} (he : e = 'e' ∨ e = 'E') : IsExponentMark [e]
  | signed {e s : Char} (he : e = 'e' ∨ e = 'E') (hs : s = '+' ∨ s = '-') : IsExponentMark [e, s]

/-- Digits, perhaps with a point and digits behind them. -/
inductive IsDecimal : List Char → Prop
  | whole {ds : List Char} (h : isDigits ds = true) : IsDecimal ds
  | point {ds fraction : List Char} (h : isDigits ds = true) (hfraction : isDigits fraction = true) :
      IsDecimal (ds ++ '.' :: fraction)

/-- A decimal, perhaps with an exponent. -/
inductive IsNumeral : List Char → Prop
  | plain {cs : List Char} (h : IsDecimal cs) : IsNumeral cs
  | scaled {cs mark ds : List Char} (h : IsDecimal cs) (hmark : IsExponentMark mark)
      (hds : isDigits ds = true) : IsNumeral (cs ++ (mark ++ ds))

/-- A numeral, or a decimal and the mark of an exponent that lacks its digits. -/
inductive IsNumber : List Char → Prop
  | numeral {cs : List Char} (h : IsNumeral cs) : IsNumber cs
  | marked {cs mark : List Char} (h : IsDecimal cs) (hmark : IsExponentMark mark) : IsNumber (cs ++ mark)

/-- The last character is a digit. -/
def EndsInDigit (cs : List Char) : Prop := ∃ d, cs.getLast? = some d ∧ d.isDigit = true

theorem IsExponentMark.ne_nil (h : IsExponentMark mark) : mark ≠ [] := by
  cases h <;> simp

theorem IsExponentMark.isDigit_eq_false (h : IsExponentMark mark) : ∀ c ∈ mark, c.isDigit = false := by
  cases h with
  | plain he => rcases he with rfl | rfl <;> simp
  | signed he hs => rcases he with rfl | rfl <;> rcases hs with rfl | rfl <;> simp

theorem endsInDigit_append (front : List Char) (h : isDigits ds = true) : EndsInDigit (front ++ ds) := by
  obtain ⟨hne, hall⟩ := isDigits_iff.1 h
  refine ⟨ds.getLast hne, ?_, hall _ (List.getLast_mem hne)⟩
  rw [List.getLast?_append_of_ne_nil front hne, List.getLast?_eq_some_getLast hne]

/-- A text does not end in a digit if its last part has none. -/
theorem not_endsInDigit_append (front : List Char) (hne : ds ≠ []) (h : ∀ c ∈ ds, c.isDigit = false) :
    ¬ EndsInDigit (front ++ ds) := by
  rintro ⟨d, hd, hdigit⟩
  rw [List.getLast?_append_of_ne_nil front hne] at hd
  rw [h d (List.mem_of_getLast? hd)] at hdigit
  cases hdigit

theorem IsDecimal.endsInDigit (h : IsDecimal cs) : EndsInDigit cs := by
  cases h with
  | whole h => exact endsInDigit_append [] h
  | point _ hfraction =>
    rw [List.append_cons]
    exact endsInDigit_append _ hfraction

theorem IsNumeral.endsInDigit (h : IsNumeral cs) : EndsInDigit cs := by
  cases h with
  | plain h => exact h.endsInDigit
  | scaled _ _ hds =>
    rw [← List.append_assoc]
    exact endsInDigit_append _ hds

/-- What may stand behind a decimal in a number: nothing, or the mark of an exponent and any digits. -/
inductive IsScale : List Char → Prop
  | none : IsScale []
  | digits {mark ds : List Char} (hmark : IsExponentMark mark) (hds : ∀ d ∈ ds, d.isDigit = true) :
      IsScale (mark ++ ds)

/-- A number is a decimal and what may stand behind it. -/
theorem isNumber_iff :
    IsNumber cs ↔ ∃ decimal scale, cs = decimal ++ scale ∧ IsDecimal decimal ∧ IsScale scale := by
  constructor
  · intro h
    cases h with
    | marked h hmark => exact ⟨_, _ ++ [], by rw [List.append_nil], h, .digits hmark nofun⟩
    | numeral h =>
      cases h with
      | plain h => exact ⟨_, _, (List.append_nil _).symm, h, .none⟩
      | scaled h hmark hds => exact ⟨_, _, rfl, h, .digits hmark (isDigits_iff.1 hds).2⟩
  · rintro ⟨decimal, scale, rfl, h, hscale⟩
    cases hscale with
    | none =>
      rw [List.append_nil]
      exact .numeral (.plain h)
    | @digits mark ds hmark hds =>
      by_cases hne : ds = []
      · rw [hne, List.append_nil]
        exact .marked h hmark
      · exact .numeral (.scaled h hmark (isDigits_iff.2 ⟨hne, hds⟩))

/-! ## Spelling -/

section Spelling

variable {c d : Char} {p x : Bool}

theorem NumberRest.digits_append (hds : ∀ d ∈ ds, d.isDigit = true) (h : NumberRest p x cs) :
    NumberRest p x (ds ++ cs) := by
  induction ds with
  | nil => exact h
  | cons d ds ih =>
    obtain ⟨hd, hds⟩ := List.forall_mem_cons.1 hds
    exact .digit hd (ih hds)

theorem IsScale.numberRest (h : IsScale cs) : NumberRest p false cs := by
  cases h with
  | none => exact .nil
  | @digits mark ds hmark hds =>
    have hrest : NumberRest p true ds := by simpa using NumberRest.digits_append hds .nil
    cases hmark with
    | plain he => exact .exponent he hrest
    | signed he hs => exact .signed he hs hrest

/-- A decimal and a rest that may stand behind it, point or no point, are a number token. -/
theorem IsDecimal.spells (h : IsDecimal cs) (hrest : ∀ p, NumberRest p false rest) :
    Spells (.number (String.ofList (cs ++ rest))) (cs ++ rest) := by
  cases h with
  | whole h =>
    obtain ⟨c, whole, rfl, hc, hwhole⟩ := exists_cons_of_isDigits h
    exact .number hc ((hrest false).digits_append hwhole)
  | point h hfraction =>
    obtain ⟨c, whole, rfl, hc, hwhole⟩ := exists_cons_of_isDigits h
    obtain ⟨d, fraction, rfl, hd, hfraction⟩ := exists_cons_of_isDigits hfraction
    have htail : NumberRest true false (d :: (fraction ++ rest)) :=
      .digit hd ((hrest true).digits_append hfraction)
    rw [List.append_assoc]
    exact .number hc ((NumberRest.point hd htail).digits_append hwhole)

/-- Behind the mark of an exponent there are digits only. -/
theorem NumberRest.isDigit (h : NumberRest p x cs) (hx : x = true) : ∀ d ∈ cs, d.isDigit = true := by
  induction h with
  | nil => exact nofun
  | digit hd _ ih => exact List.forall_mem_cons.2 ⟨hd, ih hx⟩
  | point => cases hx
  | exponent => cases hx
  | signed => cases hx

/-- Behind a digit no less may follow than before it. -/
theorem NumberRest.of_cons (hd : d.isDigit = true) (h : NumberRest p x (d :: cs)) : NumberRest p x cs := by
  cases h with
  | digit _ h => exact h
  | point => cases hd
  | exponent he _ => rcases he with rfl | rfl <;> cases hd
  | signed he _ _ => rcases he with rfl | rfl <;> cases hd

/-- Digits come first.  They go on up to the point, if it may still come, or else there is only a scale. -/
theorem NumberRest.exists_digits (h : NumberRest p x cs) :
    ∃ ds tail, cs = ds ++ tail ∧ (∀ d ∈ ds, d.isDigit = true) ∧
      (IsScale tail ∨
        p = false ∧ ∃ d more, tail = '.' :: d :: more ∧ d.isDigit = true ∧ NumberRest true false more) := by
  induction h with
  | nil => exact ⟨[], [], rfl, nofun, .inl .none⟩
  | digit hd _ ih =>
    obtain ⟨ds, tail, rfl, hds, htail⟩ := ih
    exact ⟨_ :: ds, tail, rfl, List.forall_mem_cons.2 ⟨hd, hds⟩, htail⟩
  | point hd h _ => exact ⟨[], _, rfl, nofun, .inr ⟨rfl, _, _, rfl, hd, h.of_cons hd⟩⟩
  | exponent he h _ => exact ⟨[], _, rfl, nofun, .inl (.digits (.plain he) (h.isDigit rfl))⟩
  | signed he hs h _ => exact ⟨[], _, rfl, nofun, .inl (.digits (.signed he hs) (h.isDigit rfl))⟩

/-- A digit and what may follow it are a number. -/
theorem NumberRest.isNumber (hc : c.isDigit = true) (h : NumberRest false false cs) : IsNumber (c :: cs) := by
  obtain ⟨whole, tail, rfl, hwhole, hscale | ⟨-, d, more, rfl, hd, hmore⟩⟩ := h.exists_digits
  · exact isNumber_iff.2 ⟨c :: whole, tail, rfl, .whole (isDigits_cons.2 ⟨hc, hwhole⟩), hscale⟩
  -- behind the point the digits go on, and no second point comes
  · obtain ⟨fraction, tail, rfl, hfraction, hscale | ⟨hp, -⟩⟩ := hmore.exists_digits
    · refine isNumber_iff.2 ⟨c :: whole ++ '.' :: d :: fraction, tail, ?_, ?_, hscale⟩
      · rw [List.cons_append, List.cons_append, List.append_assoc]
        rfl
      · exact .point (isDigits_cons.2 ⟨hc, hwhole⟩) (isDigits_cons.2 ⟨hd, hfraction⟩)
    · cases hp

/-- **The numbers are what number tokens are spelled with.** -/
theorem spells_number_iff {text : String} :
    Spells (.number text) cs ↔ text = String.ofList cs ∧ IsNumber cs := by
  constructor
  · intro h
    cases h with
    | number hc hcs => exact ⟨rfl, hcs.isNumber hc⟩
  · rintro ⟨rfl, h⟩
    obtain ⟨decimal, scale, rfl, hdecimal, hscale⟩ := isNumber_iff.1 h
    exact hdecimal.spells fun _ => hscale.numberRest

end Spelling

/-! ## The longest of a form -/

/-- The lexeme has the form, and no text at its place that has the form is longer. -/
def IsLongestOf (form : List Char → Prop) (lexeme rest : List Char) : Prop :=
  form lexeme ∧ ∀ other, form other → other <+: lexeme ++ rest → other.length ≤ lexeme.length

/-- The longest token at a place, if it is a number, is the longest number there. -/
theorem isLongestOf_of_spells {text : String} (h : Spells (.number text) lexeme)
    (hlongest : IsLongest lexeme rest) : IsLongestOf IsNumber lexeme rest :=
  ⟨(spells_number_iff.1 h).2, fun other hother => hlongest _ other (spells_number_iff.2 ⟨rfl, hother⟩)⟩

/-- A text that ends in a digit does not reach into a part without digits. -/
theorem length_le_of_endsInDigit {front other : List Char} (hleads : other <+: front ++ mark)
    (hmark : ∀ c ∈ mark, c.isDigit = false) (hother : EndsInDigit other) : other.length ≤ front.length := by
  by_contra hlt
  obtain ⟨more, rfl⟩ : front <+: other :=
    List.prefix_of_prefix_length_le (List.prefix_append front mark) hleads (by omega)
  have hne : more ≠ [] := by
    rintro rfl
    simp at hlt
  have hmore : more <+: mark := (List.prefix_append_right_inj front).1 hleads
  exact not_endsInDigit_append front hne (fun c hc => hmark c (hmore.subset hc)) hother

/-- The longest number is the longest numeral, and behind it perhaps a mark. -/
theorem IsLongestOf.exists_numeral (h : IsLongestOf IsNumber lexeme rest) :
    ∃ numeral mark, lexeme = numeral ++ mark ∧ (mark = [] ∨ IsDecimal numeral ∧ IsExponentMark mark) ∧
      IsLongestOf IsNumeral numeral (mark ++ rest) := by
  obtain ⟨hform, hlongest⟩ := h
  cases hform with
  | numeral hnumeral =>
    refine ⟨lexeme, [], (List.append_nil lexeme).symm, .inl rfl, hnumeral, ?_⟩
    intro other hother
    exact hlongest other (.numeral hother)
  | @marked decimal mark hdecimal hmark =>
    refine ⟨decimal, mark, rfl, .inr ⟨hdecimal, hmark⟩, .plain hdecimal, ?_⟩
    intro other hother hleads
    rw [← List.append_assoc] at hleads
    have hlexeme : other <+: decimal ++ mark := List.prefix_of_prefix_length_le hleads
      (List.prefix_append _ rest) (hlongest other (.numeral hother) hleads)
    exact length_le_of_endsInDigit hlexeme hmark.isDigit_eq_false hother.endsInDigit

/-- The longest number is the longest numeral exactly if it ends in a digit. -/
theorem IsLongestOf.numeral_iff (h : IsLongestOf IsNumber lexeme rest) :
    IsLongestOf IsNumeral lexeme rest ↔ EndsInDigit lexeme := by
  constructor
  · intro hnumeral
    exact hnumeral.1.endsInDigit
  · intro hdigit
    obtain ⟨numeral, mark, rfl, rfl | ⟨-, hmark⟩, hnumeral⟩ := h.exists_numeral
    · simpa using hnumeral
    · exact absurd hdigit (not_endsInDigit_append numeral hmark.ne_nil hmark.isDigit_eq_false)

/-! ## Places -/

/-- The source has this left at a place. -/
def IsLeftAt (source : List Char) (location : Location) (remaining : List Char) : Prop :=
  ∃ before, source = before ++ remaining ∧ placeAfter before = location

/-- Characters move the place: a line break its row, and others its column. -/
theorem placeAfter_append_ne (before : List Char) (hne : ds ≠ []) :
    placeAfter (before ++ ds) ≠ placeAfter before := by
  intro h
  simp only [placeAfter, Location.mk.injEq, List.count_append, List.reverse_append] at h
  obtain ⟨hrow, hcol⟩ := h
  have hline : '\n' ∉ ds := List.count_eq_zero.1 (by omega)
  have hall : ∀ c ∈ ds.reverse, decide (c ≠ '\n') = true := by
    intro c hc
    have hmem := List.mem_reverse.1 hc
    exact decide_eq_true (ne_of_mem_of_not_mem hmem hline)
  rw [List.takeWhile_append_of_pos hall, List.length_append, List.length_reverse] at hcol
  have hpos := List.length_pos_iff.2 hne
  omega

/-- **What is left at a place is told by the place.** -/
theorem IsLeftAt.unique {source remaining remaining' : List Char} {location : Location}
    (h : IsLeftAt source location remaining) (h' : IsLeftAt source location remaining') :
    remaining = remaining' := by
  obtain ⟨before, rfl, rfl⟩ := h
  obtain ⟨before', heq, hplace⟩ := h'
  -- of two cuts of one text, one is as far on as the other or behind it
  obtain ⟨more, rfl, rfl⟩ | ⟨more, rfl, rfl⟩ := List.append_eq_append_iff.1 heq
  · by_cases hmore : more = []
    · rw [hmore, List.nil_append]
    · exact absurd hplace (placeAfter_append_ne before hmore)
  · by_cases hmore : more = []
    · rw [hmore, List.nil_append]
    · exact absurd hplace.symm (placeAfter_append_ne before' hmore)

/-! ## Number tokens -/

/-- A token before the end of the input is the longest that is spelled at its place. -/
theorem IsTokenization.exists_lexeme {source : List Char} {tokens : List Token} {t : Token}
    (h : IsTokenization source tokens) (ht : t ∈ tokens) (hkind : t.kind ≠ .endOfInput) :
    ∃ lexeme rest, IsLeftAt source t.location (lexeme ++ rest) ∧
      Spells t.kind lexeme ∧ IsLongest lexeme rest := by
  obtain ⟨stretches, last, rfl, hsplit, rfl, hlast, -⟩ := h
  obtain ht | ht := List.mem_append.1 ht
  · obtain ⟨before, lexeme, after, rfl, hspells, hlongest, hplace, -⟩ := hsplit.exists_stretch ht
    rw [List.append_nil] at hlongest
    refine ⟨lexeme, textOf after, ⟨textOf before, ?_, hplace.symm⟩, hspells, hlongest⟩
    rw [textOf_append]
    rfl
  · rw [List.mem_singleton.1 ht] at hkind
    exact absurd hlast hkind

/-- **A number token is the longest numeral at its place, and behind it perhaps the mark of an exponent.**  What
is left of the source at its place begins with the token.  This is the longest number there.  It is the longest
numeral there exactly if it ends in a digit, and else this numeral with a mark that has no digits. -/
theorem number_token_isLongest {source : String} {tokens : List Token} {t : Token} {text : String}
    (h : tokenize source = .ok tokens) (ht : t ∈ tokens) (hkind : t.kind = .number text) :
    ∃ rest, (∀ remaining, IsLeftAt source.toList t.location remaining ↔ remaining = text.toList ++ rest) ∧
      IsLongestOf IsNumber text.toList rest ∧
      (IsLongestOf IsNumeral text.toList rest ↔ EndsInDigit text.toList) ∧
      ∃ numeral mark, text.toList = numeral ++ mark ∧ (mark = [] ∨ IsDecimal numeral ∧ IsExponentMark mark) ∧
        IsLongestOf IsNumeral numeral (mark ++ rest) := by
  have hend : t.kind ≠ .endOfInput := by
    rw [hkind]
    exact Kind.noConfusion
  obtain ⟨lexeme, rest, hleft, hspells, hlongest⟩ := (isTokenization_of_tokenize h).exists_lexeme ht hend
  rw [hkind] at hspells
  have htext : text.toList = lexeme := by rw [(spells_number_iff.1 hspells).1, String.toList_ofList]
  have hnumber : IsLongestOf IsNumber lexeme rest := isLongestOf_of_spells hspells hlongest
  rw [htext]
  refine ⟨rest, ?_, hnumber, hnumber.numeral_iff, hnumber.exists_numeral⟩
  intro remaining
  constructor
  · intro hremaining
    exact hremaining.unique hleft
  · rintro rfl
    exact hleft

/-- The sign behind a mark is taken with it, though no digit follows. -/
theorem number_token_isLongest_marked :
    let tokens : List Token := [⟨.name "a", ⟨1, 1⟩, true⟩, ⟨.symbol .minus, ⟨1, 2⟩, false⟩,
      ⟨.number "1.5e+", ⟨1, 3⟩, false⟩, ⟨.name "b", ⟨1, 8⟩, false⟩, ⟨.endOfInput, ⟨1, 9⟩, false⟩]
    tokenize "a-1.5e+b" = .ok tokens ∧ ⟨.number "1.5e+", ⟨1, 3⟩, false⟩ ∈ tokens ∧
      ∃ rest, (∀ remaining, IsLeftAt "a-1.5e+b".toList ⟨1, 3⟩ remaining ↔ remaining = "1.5e+".toList ++ rest) ∧
        IsLongestOf IsNumber "1.5e+".toList rest ∧
        (IsLongestOf IsNumeral "1.5e+".toList rest ↔ EndsInDigit "1.5e+".toList) ∧
        ∃ numeral mark, "1.5e+".toList = numeral ++ mark ∧
          (mark = [] ∨ IsDecimal numeral ∧ IsExponentMark mark) ∧
          IsLongestOf IsNumeral numeral (mark ++ rest) := by
  intro tokens
  have htokens : tokenize "a-1.5e+b" = .ok tokens := by decide +kernel
  have hmem : (⟨.number "1.5e+", ⟨1, 3⟩, false⟩ : Token) ∈ tokens := by decide
  exact ⟨htokens, hmem, number_token_isLongest htokens hmem rfl⟩

/-- A mark that has no digits is taken. -/
theorem not_forall_number_token_numeral :
    ¬ ∀ (source : String) (tokens : List Token) (t : Token) (text : String), tokenize source = .ok tokens →
      t ∈ tokens → t.kind = .number text →
      ∃ rest, IsLeftAt source.toList t.location (text.toList ++ rest) ∧
        IsLongestOf IsNumeral text.toList rest := by
  intro h
  have htokens : tokenize "1e" =
      .ok [⟨.number "1e", ⟨1, 1⟩, true⟩, ⟨.endOfInput, ⟨1, 3⟩, false⟩] := by decide +kernel
  obtain ⟨rest, -, hnumeral, -⟩ := h _ _ _ _ htokens List.mem_cons_self rfl
  have hdigit : EndsInDigit ['1', 'e'] := hnumeral.endsInDigit
  exact not_endsInDigit_append ['1'] (List.cons_ne_nil 'e' []) (by simp) hdigit

end Gatehouse.Rego
