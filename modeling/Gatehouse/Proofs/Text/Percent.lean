import Gatehouse.Text.Percent
import Mathlib.Data.List.Basic

/-!
# What escapes do to bytes

1. **Bytes** (`bytes_injective`).  Texts of the same bytes are the same, and a text from which something was
   taken has fewer.
2. **Reading** (`decode_eq_bytes_or_lt`).  A text without escapes is read as its bytes, and any other as fewer.
3. **Escaping** (`decode_encode_of_hex`).  Where percent signs are left as they are, a text may hold escapes
   already.  They are read as they were before, since what is escaped beside them is no digit.
-/

namespace Gatehouse.Text.Percent

/-! ## Bytes -/

/-- The bytes of a text. -/
def bytes (cs : List Char) : List UInt8 := cs.flatMap String.utf8EncodeChar

theorem bytes_cons (c : Char) (cs : List Char) : bytes (c :: cs) = String.utf8EncodeChar c ++ bytes cs :=
  List.flatMap_cons

theorem bytes_append (cs ds : List Char) : bytes (cs ++ ds) = bytes cs ++ bytes ds := List.flatMap_append

theorem length_utf8_pos (c : Char) : 0 < (String.utf8EncodeChar c).length := by
  rw [String.length_utf8EncodeChar]
  exact c.utf8Size_pos

/-- Texts of the same bytes are the same. -/
theorem bytes_injective {cs ds : List Char} (h : bytes cs = bytes ds) : cs = ds := by
  have hutf8 : cs.utf8Encode = ds.utf8Encode := congrArg List.toByteArray h
  have hdecode := congrArg ByteArray.utf8Decode? hutf8
  rw [List.utf8Decode?_utf8Encode, List.utf8Decode?_utf8Encode] at hdecode
  exact congrArg Array.toList (Option.some.inj hdecode)

/-- What is left of a text has fewer bytes, unless all is left. -/
theorem length_bytes_of_sublist {cs ds : List Char} (h : cs.Sublist ds) :
    (bytes cs).length < (bytes ds).length ∨ cs = ds := by
  induction h with
  | slnil => exact .inr rfl
  | cons c _ ih =>
    have hpos := length_utf8_pos c
    left
    rw [bytes_cons, List.length_append]
    rcases ih with hlt | rfl
    · omega
    · omega
  | cons_cons c _ ih =>
    rcases ih with hlt | rfl
    · left
      rw [bytes_cons, bytes_cons, List.length_append, List.length_append]
      omega
    · exact .inr rfl

/-! ## Reading -/

/-- No percent sign stands before two hexadecimal digits. -/
def IsUnescaped (cs : List Char) : Prop :=
  ∀ front x y back, cs = front ++ '%' :: x :: y :: back → hexValue? x = none ∨ hexValue? y = none

theorem isUnescaped_of_notMem {cs : List Char} (h : '%' ∉ cs) : IsUnescaped cs := by
  rintro front x y back rfl
  exact absurd (List.mem_append_right front List.mem_cons_self) h

theorem IsUnescaped.tail {c : Char} {cs : List Char} (h : IsUnescaped (c :: cs)) : IsUnescaped cs :=
  fun front x y back heq => h (c :: front) x y back (by rw [heq]; rfl)

theorem IsUnescaped.cons {c : Char} {cs : List Char} (h : IsUnescaped cs)
    (hc : ∀ x y back, c :: cs = '%' :: x :: y :: back → hexValue? x = none ∨ hexValue? y = none) :
    IsUnescaped (c :: cs) := by
  intro front x y back heq
  cases front with
  | nil => exact hc x y back heq
  | cons d front => exact h front x y back (List.cons.inj heq).2

/-- A percent sign that escapes nothing is read as itself. -/
theorem decode_percent {cs : List Char}
    (h : ∀ x y back, cs = x :: y :: back → hexValue? x = none ∨ hexValue? y = none) :
    decode ('%' :: cs) = String.utf8EncodeChar '%' ++ decode cs := by
  rcases cs with _ | ⟨x, _ | ⟨y, back⟩⟩
  · rfl
  · rfl
  · have hnone := h x y back rfl
    rw [decode]
    split
    · rename_i v w hx hy
      rcases hnone with hnone | hnone
      · rw [hx] at hnone
        cases hnone
      · rw [hy] at hnone
        cases hnone
    · rfl

theorem decode_escaped {x y : Char} {v w : Nat} (hx : hexValue? x = some v) (hy : hexValue? y = some w)
    (back : List Char) : decode ('%' :: x :: y :: back) = UInt8.ofNat (v * 16 + w) :: decode back := by
  rw [decode, hx, hy]

/-- A character is read as itself, or it is the percent sign of an escape. -/
theorem escapes_or (c : Char) (cs : List Char) :
    (∃ x y back v w, c = '%' ∧ cs = x :: y :: back ∧ hexValue? x = some v ∧ hexValue? y = some w) ∨
      ((∀ x y back, c :: cs = '%' :: x :: y :: back → hexValue? x = none ∨ hexValue? y = none) ∧
        decode (c :: cs) = String.utf8EncodeChar c ++ decode cs) := by
  by_cases h : ∀ x y back, c :: cs = '%' :: x :: y :: back → hexValue? x = none ∨ hexValue? y = none
  · right
    refine ⟨h, ?_⟩
    by_cases hc : c = '%'
    · subst hc
      exact decode_percent fun x y back heq => h x y back (by rw [heq])
    · exact decode_cons hc cs
  · left
    simp only [not_forall, not_or] at h
    obtain ⟨x, y, back, heq, hx, hy⟩ := h
    obtain ⟨rfl, rfl⟩ := List.cons.inj heq
    obtain ⟨v, hv⟩ := Option.ne_none_iff_exists'.1 hx
    obtain ⟨w, hw⟩ := Option.ne_none_iff_exists'.1 hy
    exact ⟨x, y, back, v, w, rfl, rfl, hv, hw⟩

/-- **A text without escapes is read as its bytes, and any other as fewer.**  An escape takes three
characters at once, so the induction is on the length. -/
theorem decode_eq_bytes_or_lt (cs : List Char) :
    (IsUnescaped cs ∧ decode cs = bytes cs) ∨
      (¬IsUnescaped cs ∧ (decode cs).length < (bytes cs).length) := by
  induction hlength : cs.length using Nat.strongRecOn generalizing cs with
  | ind length ih =>
    cases cs with
    | nil => exact .inl ⟨fun front x y back heq => by simp at heq, rfl⟩
    | cons c cs =>
      rcases escapes_or c cs with ⟨x, y, back, v, w, rfl, rfl, hx, hy⟩ | ⟨hc, hdecode⟩
      · right
        constructor
        · intro h
          have hnone := h [] x y back rfl
          simp [hx, hy] at hnone
        · have hback : (decode back).length ≤ (bytes back).length := by
            rcases ih back.length (by simp at hlength; omega) back rfl with ⟨-, heq⟩ | ⟨-, hlt⟩
            · exact Nat.le_of_eq (congrArg List.length heq)
            · exact Nat.le_of_lt hlt
          have hpercent := length_utf8_pos '%'
          have hxpos := length_utf8_pos x
          have hypos := length_utf8_pos y
          rw [decode_escaped hx hy, bytes_cons, bytes_cons, bytes_cons, List.length_cons,
            List.length_append, List.length_append, List.length_append]
          omega
      · rcases ih cs.length (by simp at hlength; omega) cs rfl with ⟨hcs, heq⟩ | ⟨hcs, hlt⟩
        · exact .inl ⟨hcs.cons hc, by rw [hdecode, heq, bytes_cons]⟩
        · refine .inr ⟨fun h => hcs h.tail, ?_⟩
          rw [hdecode, bytes_cons, List.length_append, List.length_append]
          omega

theorem decode_of_isUnescaped {cs : List Char} (h : IsUnescaped cs) : decode cs = bytes cs := by
  rcases decode_eq_bytes_or_lt cs with ⟨-, heq⟩ | ⟨hnot, -⟩
  · exact heq
  · exact absurd h hnot

theorem length_decode_le (cs : List Char) : (decode cs).length ≤ (bytes cs).length := by
  rcases decode_eq_bytes_or_lt cs with ⟨-, heq⟩ | ⟨-, hlt⟩
  · exact Nat.le_of_eq (congrArg List.length heq)
  · exact Nat.le_of_lt hlt

/-! ## Escaping -/

theorem encode_cons (where? : Char → Bool) (c : Char) (cs : List Char) :
    encode where? (c :: cs) =
      (if where? c then (String.utf8EncodeChar c).flatMap escape else [c]) ++ encode where? cs :=
  List.flatMap_cons

/-- What is in an escaped text. -/
theorem mem_encode {where? : Char → Bool} {c : Char} {cs : List Char} (h : c ∈ encode where? cs) :
    c ∈ cs ∧ where? c = false ∨ c = '%' ∨ ∃ n < 16, c = digit n := by
  obtain ⟨d, hd, hc⟩ := List.mem_flatMap.1 h
  split at hc
  · obtain ⟨b, -, hc⟩ := List.mem_flatMap.1 hc
    have hb := b.toNat_lt
    simp only [escape, List.mem_cons, List.not_mem_nil, or_false] at hc
    rcases hc with rfl | rfl | rfl
    · exact .inr (.inl rfl)
    · exact .inr (.inr ⟨_, by omega, rfl⟩)
    · exact .inr (.inr ⟨_, by omega, rfl⟩)
  · rename_i hplain
    obtain rfl := List.mem_singleton.1 hc
    exact .inl ⟨hd, by simpa using hplain⟩

/-- A digit that an escaped text starts with stood there before. -/
theorem eq_cons_of_encode {where? : Char → Bool} {cs back : List Char} {x : Char} (hx : hexValue? x ≠ none)
    (h : encode where? cs = x :: back) : ∃ more, cs = x :: more ∧ back = encode where? more := by
  cases cs with
  | nil => simp [encode] at h
  | cons c cs =>
    rw [encode_cons] at h
    split at h
    · obtain ⟨b, bs, hbytes⟩ := List.exists_cons_of_length_pos (length_utf8_pos c)
      rw [hbytes] at h
      obtain ⟨rfl, -⟩ := List.cons.inj h
      exact absurd (by decide) hx
    · obtain ⟨rfl, rfl⟩ := List.cons.inj h
      exact ⟨cs, rfl, rfl⟩

/-- **Escaping does not change what is read**, if neither percent signs nor digits are escaped. -/
theorem decode_encode_of_hex {where? : Char → Bool} (hpercent : where? '%' = false)
    (hhex : ∀ c, hexValue? c ≠ none → where? c = false) (cs : List Char) :
    decode (encode where? cs) = decode cs := by
  induction hlength : cs.length using Nat.strongRecOn generalizing cs with
  | ind length ih =>
    cases cs with
    | nil => rfl
    | cons c cs =>
      rcases escapes_or c cs with ⟨x, y, back, v, w, rfl, rfl, hx, hy⟩ | ⟨hc, hdecode⟩
      · have hback := ih back.length (by simp at hlength; omega) back rfl
        rw [encode_cons, encode_cons, encode_cons, hpercent, hhex x (by simp [hx]), hhex y (by simp [hy])]
        show decode ('%' :: x :: y :: encode where? back) = _
        rw [decode_escaped hx hy, decode_escaped hx hy, hback]
      · have hcs := ih cs.length (by simp at hlength; omega) cs rfl
        rw [encode_cons, hdecode]
        split
        · rw [decode_escapes_append, hcs]
        · rw [List.singleton_append, ← hcs]
          by_cases hsign : c = '%'
          · subst hsign
            -- the characters behind the sign are digits only if they were digits before
            refine decode_percent fun x y back heq => ?_
            by_contra hdigits
            rw [not_or] at hdigits
            obtain ⟨_, rfl, hrest⟩ := eq_cons_of_encode hdigits.1 heq
            obtain ⟨more, rfl, -⟩ := eq_cons_of_encode hdigits.2 hrest.symm
            exact not_or.2 hdigits (hc x y more rfl)
          · exact decode_cons hsign _

end Gatehouse.Text.Percent
