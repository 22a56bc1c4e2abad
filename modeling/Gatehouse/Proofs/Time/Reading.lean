import Gatehouse.Proofs.Text.Digits
import Gatehouse.Proofs.Time.Calendar
import Gatehouse.Time.Json

/-!
# Written instants read back

Documents hold their times as texts.  What the store hands back is what was put in only if reading a
time that was written gives the time itself, to the nanosecond and with its leap seconds.

1. **Instants that clocks show** (`IsKept`): the year is one of those that are kept, and a leap second
   is the last of a minute.  Of these, `IsCivil` are those whose year has four digits.
2. **Readers and texts.**  A reader is applied to a text and whatever follows it, so that the lemmas
   chain: `bind_of` puts what one item left in front of the next.
3. **Round trips.**  The lenient reading gives back every kept instant (`ofLenient?_toText`), the
   strict one every civil instant (`ofStrict?_toText`).
-/

namespace Gatehouse

open Gatehouse.Text

namespace Instant

/-- A clock may show this: the year is kept, and a leap second is the last second of a minute. -/
structure IsKept (t : Instant) : Prop where
  least : Date.leastYear ≤ (Date.ofDays (t.seconds / secondsPerDay)).year
  greatest : (Date.ofDays (t.seconds / secondsPerDay)).year ≤ Date.greatestYear
  nanos_lt : t.nanos < 2 * nanosPerSecond
  leap : nanosPerSecond ≤ t.nanos → t.seconds % 60 = 59

/-- A clock may show this, in a year of four digits. -/
structure IsCivil (t : Instant) : Prop extends IsKept t where
  first : 0 ≤ (Date.ofDays (t.seconds / secondsPerDay)).year
  last : (Date.ofDays (t.seconds / secondsPerDay)).year ≤ 9999

end Instant

/-! ## Items -/

namespace TimeReader

variable {α β : Type}

/-- What one reader leaves is what the next one reads. -/
theorem bind_of {p : TimeReader α} {f : α → TimeReader β} {cs rest : List Char} {a : α}
    (h : p cs = some (a, rest)) : (p >>= f) cs = f a rest := by
  show (p cs).bind (fun x => f x.1 x.2) = f a rest
  rw [h]
  rfl

theorem map_of {p : TimeReader α} {f : α → β} {cs rest : List Char} {a : α}
    (h : p cs = some (a, rest)) : (f <$> p) cs = some (f a, rest) := by
  rw [map_eq_pure_bind, bind_of h]
  rfl

/-- The text does not go on with a digit. -/
def EndsNumber (cs : List Char) : Prop := ∀ c ∈ cs.head?, c.isDigit = false

theorem endsNumber_cons {c : Char} {cs : List Char} (h : c.isDigit = false) : EndsNumber (c :: cs) := by
  rintro _ ⟨⟩
  exact h

theorem takeWhile_digits {cs rest : List Char} (h : ∀ c ∈ cs, c.isDigit = true)
    (hr : EndsNumber rest) : (cs ++ rest).takeWhile Char.isDigit = cs := by
  rw [List.takeWhile_append_of_pos h]
  cases rest with
  | nil => simp
  | cons c rest => simp [hr c rfl]

/-- Digits are read to their end, or as many as the reader may take. -/
theorem number_append {least most : Nat} {cs rest : List Char} (h : ∀ c ∈ cs, c.isDigit = true)
    (hl : least ≤ cs.length) (hm : cs.length ≤ most) (hr : cs.length = most ∨ EndsNumber rest) :
    number least most (cs ++ rest) = some (ofDigits cs, rest) := by
  have hdigits : ((cs ++ rest).take most).takeWhile Char.isDigit = cs := by
    rw [List.take_append, List.take_of_length_le hm]
    refine takeWhile_digits h fun c hc => ?_
    rcases hr with rfl | hr
    · simp at hc
    · cases hrest : rest with
      | nil => simp [hrest] at hc
      | cons d tail =>
        rw [hrest, List.head?_take] at hc
        split at hc
        · simp at hc
        · exact hr c (by simpa [hrest] using hc)
  simp only [number, hdigits]
  rw [if_neg (by omega), List.drop_left]

theorem number_padded {least width n : Nat} (rest : List Char) (hw : 0 < width) (h : n < 10 ^ width)
    (hl : least ≤ width) : number least width (Instant.padded width n ++ rest) = some (n, rest) := by
  have hlen := length_padded hw h
  rw [number_append (fun _ => isDigit_of_mem_padded) (by omega) (by omega) (.inl hlen),
    ofDigits_padded]

theorem isBlank_of_isDigit {c : Char} (h : c.isDigit = true) : isBlank c = false := by
  have hc : 48 ≤ c.toNat ∧ c.toNat ≤ 57 := by
    simpa [Char.isDigit, UInt32.le_iff_toNat_le] using h
  simp [isBlank, blankRanges]
  omega

/-- Nothing is dropped from a text that begins with a sign or a letter. -/
theorem blanks_cons {c : Char} (cs : List Char) (h : isBlank c = false) :
    blanks (c :: cs) = some ((), c :: cs) := by
  simp [blanks, h]

theorem blanks_padded (width n : Nat) (rest : List Char) :
    blanks (Instant.padded width n ++ rest) = some ((), Instant.padded width n ++ rest) := by
  cases hp : Instant.padded width n with
  | nil => exact absurd hp (padded_ne_nil width n)
  | cons c cs =>
    have hc : c.isDigit = true := isDigit_of_mem_padded (hp ▸ List.mem_cons_self)
    exact blanks_cons _ (isBlank_of_isDigit hc)

theorem field_padded {n : Nat} (rest : List Char) (h : n < 100) :
    field (Instant.padded 2 n ++ rest) = some (n, rest) := by
  rw [field, bind_of (blanks_padded 2 n rest)]
  exact number_padded rest (by decide) h (by decide)

theorem oneOf_cons {choices : List Char} {c : Char} (rest : List Char) (h : c ∈ choices) :
    oneOf choices (c :: rest) = some (c, rest) := by
  simp [oneOf, h]

/-! ## Years and decimal places -/

theorem signedYear_yearText (year : Int) {rest : List Char} (hr : EndsNumber rest) :
    signedYear (Instant.yearText year ++ rest) = some (year, rest) := by
  -- a signed year takes every digit there is, so its reader sees the length of the whole text
  have hlong : ∀ n, number 1 (Instant.padded 4 n ++ rest).length (Instant.padded 4 n ++ rest) =
      some (n, rest) := fun n => by
    have hlen := le_length_padded 4 n
    rw [number_append (fun _ => isDigit_of_mem_padded) (by omega) (by simp) (.inr hr),
      ofDigits_padded]
  unfold Instant.yearText
  split
  · rename_i hy
    have hshort : number 1 4 (Instant.padded 4 year.toNat ++ rest) = some (year.toNat, rest) :=
      number_padded rest (by decide) (by omega) (by decide)
    have hdigit : ∀ c ∈ Instant.padded 4 year.toNat, c.isDigit = true :=
      fun _ => isDigit_of_mem_padded
    cases hp : Instant.padded 4 year.toNat with
    | nil => exact absurd hp (padded_ne_nil 4 _)
    | cons c cs =>
      rw [hp] at hshort hdigit
      have hc := hdigit c List.mem_cons_self
      have h := map_of (f := fun n : Nat => (n : Int)) hshort
      rw [Int.toNat_of_nonneg hy.1] at h
      rw [List.cons_append] at h ⊢
      unfold signedYear
      split
      · rename_i heq
        obtain ⟨rfl, -⟩ := List.cons.inj heq
        exact absurd hc (by decide)
      · rename_i heq
        obtain ⟨rfl, -⟩ := List.cons.inj heq
        exact absurd hc (by decide)
      · exact h
  · split
    · rename_i hy
      have h := map_of (f := fun n : Nat => (n : Int)) (hlong year.toNat)
      rwa [Int.toNat_of_nonneg hy] at h
    · rename_i hy
      have h := map_of (f := fun n : Nat => -(n : Int)) (hlong (-year).toNat)
      rwa [show -((-year).toNat : Int) = year by omega] at h

theorem fraction_padded {width n : Nat} {rest : List Char} (hw : 0 < width) (hw' : width ≤ 9)
    (h : n < 10 ^ width) (hr : EndsNumber rest) :
    fraction ('.' :: (Instant.padded width n ++ rest)) = some (n * 10 ^ (9 - width), rest) := by
  have hlen := length_padded hw h
  have hdigits : (Instant.padded width n ++ rest).takeWhile Char.isDigit = Instant.padded width n :=
    takeWhile_digits (fun _ => isDigit_of_mem_padded) hr
  have htake : (Instant.padded width n).take 9 = Instant.padded width n :=
    List.take_of_length_le (by omega)
  simp [fraction, hdigits, htake, padded_ne_nil, hlen]

/-- Decimal places of a second are written in threes, and read to the nanosecond. -/
theorem fraction_fractionText {nanos : Nat} (h : nanos < Instant.nanosPerSecond) :
    fraction (Instant.fractionText nanos ++ ['Z']) = some (nanos, ['Z']) := by
  have hr : EndsNumber ['Z'] := endsNumber_cons (by decide)
  unfold Instant.nanosPerSecond at h
  unfold Instant.fractionText
  split
  · rename_i h0
    subst h0
    rfl
  · split
    · rw [List.cons_append, fraction_padded (by decide) (by decide) (by omega) hr]
      congr 2
      omega
    · split
      · rw [List.cons_append, fraction_padded (by decide) (by decide) (by omega) hr]
        congr 2
        omega
      · rw [List.cons_append, fraction_padded (by decide) (by decide) (by omega) hr]
        simp

end TimeReader

/-! ## Instants -/

namespace Instant

open TimeReader

variable {t : Instant}

/-- **The wall clock of an instant shows the instant.** -/
theorem ofWallClock?_toText (h : t.IsKept) :
    let second := (t.seconds % secondsPerDay).toNat
    ofWallClock? (Date.ofDays (t.seconds / secondsPerDay)) (second / 3600) (second / 60 % 60)
      (second % 60 + if nanosPerSecond ≤ t.nanos then 1 else 0)
      (if nanosPerSecond ≤ t.nanos then t.nanos - nanosPerSecond else t.nanos) 0 = some t := by
  intro second
  obtain ⟨hm, hm', hd, hd'⟩ := Date.ofDays_bounds (t.seconds / secondsPerDay)
  have hvalid : (Date.ofDays (t.seconds / secondsPerDay)).isValid = true := by
    simp [Date.isValid, h.least, h.greatest, hm, hm', hd, hd']
  have hsecond : (second : Int) = t.seconds % 86400 := by
    show ((t.seconds % ((86400 : Nat) : Int)).toNat : Int) = _
    omega
  have hlt : second < 86400 := by omega
  have hday : t.seconds / 86400 * 86400 + (second : Int) = t.seconds := by omega
  have hwhole : second / 3600 * 3600 + second / 60 % 60 * 60 + second % 60 = second := by omega
  have hleast := h.least
  have hgreatest := h.greatest
  have hhour : second / 3600 ≤ 23 := by omega
  have hminute : second / 60 % 60 ≤ 59 := by omega
  simp only [secondsPerDay, Nat.cast_ofNat] at hleast hgreatest hvalid
  simp only [ofWallClock?, hvalid, hhour, hminute, Date.toDays_ofDays, secondsPerDay, Nat.cast_ofNat]
  by_cases hleap : nanosPerSecond ≤ t.nanos
  · have h59 : second % 60 = 59 := by
      have := h.leap hleap
      omega
    have hnanos : t.nanos - nanosPerSecond + nanosPerSecond = t.nanos := by omega
    have hcount : second / 3600 * 3600 + second / 60 % 60 * 60 + min (59 + 1) 59 = second := by omega
    simp only [hleap, if_true, h59, hcount, hnanos, Int.sub_zero, hday, hleast, hgreatest]
    simp
  · have hsmall : second % 60 ≠ 60 := by omega
    have hcount : second / 3600 * 3600 + second / 60 % 60 * 60 + min (second % 60) 59 = second := by
      omega
    have hsixty : second % 60 ≤ 60 := by omega
    simp only [hleap, if_false, Nat.add_zero, hcount, hsmall, hsixty, Int.sub_zero, hday, hleast,
      hgreatest]
    simp

/-- The bounds of the fields of a written instant. -/
theorem fields_lt (h : t.IsKept) :
    let date := Date.ofDays (t.seconds / secondsPerDay)
    let second := (t.seconds % secondsPerDay).toNat
    date.month < 100 ∧ date.day < 100 ∧ second / 3600 < 100 ∧ second / 60 % 60 < 100 ∧
      (second % 60 + if nanosPerSecond ≤ t.nanos then 1 else 0) < 100 ∧
      (if nanosPerSecond ≤ t.nanos then t.nanos - nanosPerSecond else t.nanos) < nanosPerSecond := by
  intro date second
  obtain ⟨-, hm, -, hd⟩ : 1 ≤ date.month ∧ date.month ≤ 12 ∧ 1 ≤ date.day ∧
      date.day ≤ Date.daysInMonth date.year date.month :=
    Date.ofDays_bounds (t.seconds / secondsPerDay)
  have hday : Date.daysInMonth date.year date.month ≤ 31 := by
    unfold Date.daysInMonth
    split
    · split <;> decide
    · split <;> decide
  have hsecond : second < 86400 := by
    show (t.seconds % ((86400 : Nat) : Int)).toNat < 86400
    omega
  have hnanos := h.nanos_lt
  refine ⟨by omega, by omega, by omega, by omega, ?_, ?_⟩
  · split <;> omega
  · split <;> omega

/-- The lenient reading of a text gives back the instant that wrote it. -/
theorem ofLenient?_toText (h : t.IsKept) : ofLenient? t.toText = some t := by
  obtain ⟨hmonth, hday, hhour, hminute, hsec, hnanos⟩ := fields_lt h
  have hclock := ofWallClock?_toText h
  have hread : lenient t.toText.toList = some (some t, []) := by
    have hyear : ∀ rest, blanks (yearText (Date.ofDays (t.seconds / secondsPerDay)).year ++ rest) =
        some ((), yearText (Date.ofDays (t.seconds / secondsPerDay)).year ++ rest) := by
      intro rest
      unfold yearText
      split
      · exact blanks_padded _ _ _
      · split
        · exact blanks_cons _ (by decide)
        · exact blanks_cons _ (by decide)
    unfold toText lenient
    simp only [String.toList_ofList, List.append_assoc, List.cons_append]
    rw [bind_of (hyear _), bind_of (signedYear_yearText _ (endsNumber_cons (by decide))),
      bind_of (blanks_cons _ (by decide)), bind_of (oneOf_cons _ (by decide)),
      bind_of (field_padded _ hmonth), bind_of (blanks_cons _ (by decide)),
      bind_of (oneOf_cons _ (by decide)), bind_of (field_padded _ hday),
      bind_of (oneOf_cons _ (by decide)), bind_of (field_padded _ hhour),
      bind_of (blanks_cons _ (by decide)), bind_of (oneOf_cons _ (by decide)),
      bind_of (field_padded _ hminute), bind_of (blanks_cons _ (by decide)),
      bind_of (oneOf_cons _ (by decide)), bind_of (field_padded _ hsec),
      bind_of (fraction_fractionText hnanos), bind_of (blanks_cons _ (by decide))]
    have hahead : (utcWord <|> offset fun cs => some ((), cs.dropWhile fun c => c = ':' || isBlank c))
        ['Z'] = some (0, []) := rfl
    have hend : blanks [] = some ((), []) := rfl
    rw [bind_of hahead, bind_of hend, hclock]
    rfl
  simp only [ofLenient?, ofWhole?, hread]

/-- The strict reading of a text gives back the civil instant that wrote it. -/
theorem ofStrict?_toText (h : t.IsCivil) : ofStrict? t.toText = some t := by
  obtain ⟨hmonth, hday, hhour, hminute, hsec, hnanos⟩ := fields_lt h.toIsKept
  have hclock := ofWallClock?_toText h.toIsKept
  have hfirst := h.first
  have hlast := h.last
  have hread : strict t.toText.toList = some (some t, []) := by
    have hyear : yearText (Date.ofDays (t.seconds / secondsPerDay)).year =
        padded 4 (Date.ofDays (t.seconds / secondsPerDay)).year.toNat := if_pos ⟨hfirst, hlast⟩
    unfold toText strict
    simp only [String.toList_ofList, List.append_assoc, List.cons_append, hyear]
    rw [bind_of (number_padded _ (by decide) (by omega) (by decide)),
      bind_of (oneOf_cons _ (by decide)),
      bind_of (number_padded _ (by decide) hmonth (by decide)),
      bind_of (oneOf_cons _ (by decide)),
      bind_of (number_padded _ (by decide) hday (by decide)),
      bind_of (oneOf_cons _ (by decide)),
      bind_of (number_padded _ (by decide) hhour (by decide)),
      bind_of (oneOf_cons _ (by decide)),
      bind_of (number_padded _ (by decide) hminute (by decide)),
      bind_of (oneOf_cons _ (by decide)),
      bind_of (number_padded _ (by decide) hsec (by decide)),
      bind_of (fraction_fractionText hnanos)]
    have hahead : offset (do let _ ← oneOf [':']) ['Z'] = some (0, []) := rfl
    rw [bind_of hahead, Int.toNat_of_nonneg hfirst, hclock]
    rfl
  simp only [ofStrict?, ofWhole?, hread]

/-- What a record writes of an instant is read back. -/
theorem ofJson?_toJson (h : t.IsKept) : ofJson? t.toJson = some t := by
  simp only [ofJson?, toJson, Json.string?, Option.bind_some, ofLenient?_toText h]

end Instant
end Gatehouse
