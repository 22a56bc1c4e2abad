import Mathlib.Data.List.TakeWhile
import Gatehouse.Json.Printer
import Gatehouse.Json.Reader

/-!
# How strings are written

A string of JSON is written character by character, and each character in one of four ways: as itself,
by an escape of one letter, by its number, and by the numbers of the two halves of a surrogate pair.

1. **Written characters** (`Writing`).  A way to write a character holds what makes it one: a letter that
   stands for something, digits that make a number, halves that belong together.
2. **Bodies** (`stringBody_eq_some_iff`).  What the reader takes for a string is a list of written
   characters, and it reads the characters.
3. **Literals** (`read?_eq_string_iff`).  The same for a text that is a string from its first quote to its
   last.  What the printer writes of a string is one, and needs no pairs.
-/

namespace Gatehouse.Json

open Gatehouse.Text

/-! ## Written characters -/

/-- A character as it is written in a string. -/
inductive Writing where
  | plain (c : Char) (quote : c ≠ '"') (backslash : c ≠ '\\') (control : 0x20 ≤ c.toNat)
  | letter (e c : Char) (stands : shortEscape? e = some c)
  | number (a b c d : Char) (n : Nat) (digits : hex4? a b c d = some n) (lead : isLead n = false)
      (trail : isTrail n = false)
  | pair (a b c d e f g h : Char) (n m : Nat) (leadDigits : hex4? a b c d = some n)
      (trailDigits : hex4? e f g h = some m) (lead : isLead n = true) (trail : isTrail m = true)

namespace Writing

/-- The characters that it takes. -/
def text : Writing → List Char
  | plain c .. => [c]
  | letter e .. => ['\\', e]
  | number a b c d .. => ['\\', 'u', a, b, c, d]
  | pair a b c d e f g h .. => ['\\', 'u', a, b, c, d, '\\', 'u', e, f, g, h]

/-- The character that is meant. -/
def char : Writing → Char
  | plain c .. => c
  | letter _ c _ => c
  | number _ _ _ _ n .. => Char.ofNat n
  | pair _ _ _ _ _ _ _ _ n m .. => ofPair n m

/-- Two escapes write one character. -/
def isPair : Writing → Bool
  | pair .. => true
  | _ => false

end Writing

/-- A string in quotes. -/
def literal (ws : List Writing) : String := String.ofList ('"' :: (ws.flatMap Writing.text ++ ['"']))

/-! ## Bodies -/

/-- The letter of an escape by number is no escape of its own. -/
theorem ne_u_of_shortEscape? {e c : Char} (h : shortEscape? e = some c) : e ≠ 'u' := by
  rintro rfl
  simp [shortEscape?] at h

/-- A written character is read first. -/
theorem stringBody_text_append (w : Writing) (cs : List Char) :
    stringBody (w.text ++ cs) = (stringBody cs).map fun p => (w.char :: p.1, p.2) := by
  cases w with
  | plain c hquote hbackslash hcontrol =>
    have hplain : ¬ (c.toNat < 0x20 || c = '\\') = true := by simp [hbackslash, hcontrol]
    show stringBody (c :: cs) = _
    rw [stringBody]
    · rw [if_neg hplain]
      cases stringBody cs <;> rfl
    · simpa using hquote
    · simp [hbackslash]
    · simp [hbackslash]
  | letter e c hstands =>
    show stringBody ('\\' :: e :: cs) = _
    rw [stringBody]
    · rw [hstands]
      cases stringBody cs <;> rfl
    · simp [ne_u_of_shortEscape? hstands]
  | number a b c d n hdigits hlead htrail =>
    show stringBody ('\\' :: 'u' :: a :: b :: c :: d :: cs) = _
    rw [stringBody, hdigits, Option.bind_eq_bind, Option.bind_some, hlead, htrail]
    cases stringBody cs <;> rfl
  | pair a b c d e f g h n m hleadDigits htrailDigits hlead htrail =>
    show stringBody ('\\' :: 'u' :: a :: b :: c :: d :: '\\' :: 'u' :: e :: f :: g :: h :: cs) = _
    rw [stringBody, hleadDigits, Option.bind_eq_bind, Option.bind_some, hlead, if_pos rfl]
    simp only [htrailDigits, Option.bind_some, htrail]
    cases stringBody cs <;> rfl

/-- What is written before the closing quote is read. -/
theorem stringBody_flatMap_text (ws : List Writing) (rest : List Char) :
    stringBody (ws.flatMap Writing.text ++ '"' :: rest) = some (ws.map Writing.char, rest) := by
  induction ws with
  | nil => simp [stringBody]
  | cons w ws ih =>
    rw [List.flatMap_cons, List.append_assoc, stringBody_text_append, ih]
    rfl

/-- What is read was written. -/
theorem exists_writings {cs value rest : List Char} (h : stringBody cs = some (value, rest)) :
    ∃ ws : List Writing, cs = ws.flatMap Writing.text ++ '"' :: rest ∧ value = ws.map Writing.char := by
  induction cs using stringBody.induct generalizing value with
  | case1 => contradiction
  | case2 cs =>
    obtain ⟨rfl, rfl⟩ := Prod.mk.inj (Option.some.inj h)
    exact ⟨[], rfl, rfl⟩
  | case3 a b c d cs ihpair ih =>
    simp only [stringBody, Option.bind_eq_bind, Option.bind_eq_some_iff] at h
    obtain ⟨n, hdigits, h⟩ := h
    split at h
    · rename_i hlead
      -- only another escape by number may follow the first half of a pair
      split at h
      · rename_i e f g h' more
        obtain ⟨m, htrailDigits, h⟩ := Option.bind_eq_some_iff.1 h
        split at h
        · rename_i htrail
          obtain ⟨⟨body, left⟩, hbody, h⟩ := Option.bind_eq_some_iff.1 h
          obtain ⟨rfl, rfl⟩ := Prod.mk.inj (Option.some.inj h)
          obtain ⟨ws, rfl, rfl⟩ := ihpair hbody
          exact ⟨.pair a b c d e f g h' n m hdigits htrailDigits hlead htrail :: ws, rfl, rfl⟩
        · contradiction
      · contradiction
    · rename_i hlead
      split at h
      · contradiction
      · rename_i htrail
        obtain ⟨⟨body, left⟩, hbody, h⟩ := Option.bind_eq_some_iff.1 h
        obtain ⟨rfl, rfl⟩ := Prod.mk.inj (Option.some.inj h)
        obtain ⟨ws, rfl, rfl⟩ := ih hbody
        exact ⟨.number a b c d n hdigits (by simpa using hlead) (by simpa using htrail) :: ws, rfl, rfl⟩
  | case4 e cs hu ih =>
    rw [stringBody.eq_4 _ _ hu] at h
    obtain ⟨c, hstands, h⟩ := Option.bind_eq_some_iff.1 h
    obtain ⟨⟨body, left⟩, hbody, h⟩ := Option.bind_eq_some_iff.1 h
    obtain ⟨rfl, rfl⟩ := Prod.mk.inj (Option.some.inj h)
    obtain ⟨ws, rfl, rfl⟩ := ih hbody
    exact ⟨.letter e c hstands :: ws, rfl, rfl⟩
  | case5 c cs hquote hnumber hletter hc =>
    rw [stringBody.eq_5 _ _ hquote hnumber hletter, if_pos hc] at h
    contradiction
  | case6 c cs hquote hnumber hletter hc ih =>
    rw [stringBody.eq_5 _ _ hquote hnumber hletter, if_neg hc] at h
    obtain ⟨⟨body, left⟩, hbody, h⟩ := Option.bind_eq_some_iff.1 h
    obtain ⟨rfl, rfl⟩ := Prod.mk.inj (Option.some.inj h)
    obtain ⟨ws, rfl, rfl⟩ := ih hbody
    simp only [Bool.or_eq_true, decide_eq_true_iff, not_or, Nat.not_lt] at hc
    exact ⟨.plain c hquote hc.2 hc.1 :: ws, rfl, rfl⟩

/-- **A string is a list of written characters, and reads as these.** -/
theorem stringBody_eq_some_iff {cs value rest : List Char} :
    stringBody cs = some (value, rest) ↔
      ∃ ws : List Writing, cs = ws.flatMap Writing.text ++ '"' :: rest ∧ value = ws.map Writing.char := by
  constructor
  · exact exists_writings
  · rintro ⟨ws, rfl, rfl⟩
    exact stringBody_flatMap_text ws rest

/-! ## Literals -/

/-- A text that starts with a quote is read as a string, if blanks are all that follows it. -/
theorem read?_quote {text value : String} {cs : List Char} (htext : text.toList = '"' :: cs) :
    read? text = some (.string value) ↔
      ∃ rest, stringBody cs = some (value.toList, rest) ∧ dropBlanks rest = [] := by
  have hscalar : ∀ fuel, valueAt fuel nestingLimit ('"' :: cs) =
      (stringBody cs).map fun p => (.string (String.ofList p.1), p.2) := fun _ => rfl
  rw [read?, readMembers?, htext, hscalar]
  cases stringBody cs with
  | none => simp
  | some p =>
    obtain ⟨read, rest⟩ := p
    simp only [Option.map_some, List.isEmpty_iff, Option.some.injEq, Prod.mk.injEq]
    constructor
    · intro h
      split at h
      · rename_i hrest
        obtain rfl := Json.string.inj (Option.some.inj h)
        exact ⟨rest, ⟨String.toList_ofList.symm, rfl⟩, hrest⟩
      · contradiction
    · rintro ⟨_, ⟨rfl, rfl⟩, hrest⟩
      rw [if_pos hrest, String.ofList_toList]
      rfl

/-- Blanks do not end with a quote. -/
theorem quote_notMem_of_dropBlanks {cs : List Char} (h : dropBlanks cs = []) : '"' ∉ cs := by
  intro hmem
  have hblank := List.dropWhile_eq_nil_iff.1 h '"' hmem
  exact absurd hblank (by decide)

/-- **What is read as a string, from its first quote to its last, is a literal.** -/
theorem read?_eq_string_iff {text value : String} :
    (read? text = some (.string value) ∧ text.toList.head? = some '"' ∧ text.toList.getLast? = some '"') ↔
      ∃ ws, text = literal ws ∧ value = String.ofList (ws.map Writing.char) := by
  constructor
  · rintro ⟨hread, hfirst, hlast⟩
    obtain ⟨cs, hcs⟩ := List.head?_eq_some_iff.1 hfirst
    obtain ⟨rest, hbody, hrest⟩ := (read?_quote hcs).1 hread
    obtain ⟨ws, rfl, hvalue⟩ := stringBody_eq_some_iff.1 hbody
    -- the last quote is the one that closes the string
    have hnil : rest = [] := by
      cases rest with
      | nil => rfl
      | cons c rest =>
        have hsplit : text.toList = ('"' :: (ws.flatMap Writing.text ++ ['"'])) ++ c :: rest := by
          rw [hcs, List.cons_append, List.append_assoc, List.singleton_append]
        have hsome := List.getLast?_eq_some_getLast (List.cons_ne_nil c rest)
        rw [hsplit, List.getLast?_append, hsome, Option.some_or, ← hsome] at hlast
        exact absurd (List.mem_of_getLast? hlast) (quote_notMem_of_dropBlanks hrest)
    subst hnil
    refine ⟨ws, ?_, ?_⟩
    · rw [literal, ← hcs, String.ofList_toList]
    · rw [← hvalue, String.ofList_toList]
  · rintro ⟨ws, rfl, rfl⟩
    have htext : (literal ws).toList = '"' :: (ws.flatMap Writing.text ++ ['"']) := String.toList_ofList
    refine ⟨(read?_quote htext).2 ⟨[], ?_, rfl⟩, by rw [htext]; rfl, ?_⟩
    · rw [String.toList_ofList]
      exact stringBody_flatMap_text ws []
    · rw [htext, ← List.cons_append, List.getLast?_concat]

/-! ### Printed strings -/

/-- Two digits are enough for a control. -/
theorem hex4?_hexDigit : ∀ n < 0x20, hex4? '0' '0' (hexDigit (n / 16)) (hexDigit (n % 16)) = some n := by
  decide

/-- The printer writes every character in one of the ways, and none by a pair. -/
theorem exists_writing_escaped (c : Char) :
    ∃ w : Writing, w.text = escaped c ∧ w.char = c ∧ w.isPair = false := by
  unfold escaped
  repeat' split
  -- the seven characters that have a letter
  any_goals exact ⟨.letter _ c (by subst_vars; rfl), rfl, rfl, rfl⟩
  · rename_i hcontrol
    exact ⟨.number _ _ _ _ c.toNat (hex4?_hexDigit _ hcontrol) (by simp [isLead]; omega)
      (by simp [isTrail]; omega), rfl, Char.ofNat_toNat c, rfl⟩
  · rename_i hquote hbackslash _ _ _ _ _ hcontrol
    exact ⟨.plain c hquote hbackslash (Nat.not_lt.1 hcontrol), rfl, rfl, rfl⟩

theorem exists_writings_escaped (cs : List Char) :
    ∃ ws : List Writing, ws.flatMap Writing.text = cs.flatMap escaped ∧ ws.map Writing.char = cs ∧
      ∀ w ∈ ws, w.isPair = false := by
  induction cs with
  | nil => exact ⟨[], rfl, rfl, fun _ hw => absurd hw List.not_mem_nil⟩
  | cons c cs ih =>
    obtain ⟨w, htext, hchar, hpair⟩ := exists_writing_escaped c
    obtain ⟨ws, htexts, hchars, hpairs⟩ := ih
    refine ⟨w :: ws, ?_, ?_, List.forall_mem_cons.2 ⟨hpair, hpairs⟩⟩
    · rw [List.flatMap_cons, List.flatMap_cons, htext, htexts]
    · rw [List.map_cons, hchar, hchars]

/-- **What is printed of a string is a literal of it without pairs.** -/
theorem exists_literal_stringText (s : String) :
    ∃ ws, literal ws = String.ofList (stringText s) ∧ String.ofList (ws.map Writing.char) = s ∧
      ∀ w ∈ ws, w.isPair = false := by
  obtain ⟨ws, htext, hchar, hpair⟩ := exists_writings_escaped s.toList
  refine ⟨ws, ?_, ?_, hpair⟩
  · rw [literal, stringText, htext, List.cons_append]
  · rw [hchar, String.ofList_toList]

end Gatehouse.Json
