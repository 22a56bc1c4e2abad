import Gatehouse.Time.Calendar
import Mathlib.Tactic.Linarith
import Mathlib.Tactic.Ring

/-!
# The calendar in both directions

`Date.ofDays` is a formula of divisions, `Date.toDays` another.  Counting the days of a day that was
counted gives the count back (`toDays_ofDays`), and the day is one of the calendar (`ofDays_bounds`).

The crux is `exists_cycles`: a day of an era is so many centuries, four-year cycles and years in, and
every division of the formula reads off one of these numbers.  The corrections of the formula are for
the one day too many that a cycle, a century or an era may have at its end, so each splits on whether
the day is that last one.
-/

namespace Gatehouse.Date

/-! ## Cycles -/

/-- A day of an era is so many centuries, four-year cycles and years in, and then so many days.  Only
the last year of a cycle has a day 365, and of the last cycles of centuries only the last one. -/
theorem exists_cycles {d : Int} (h0 : 0 ≤ d) (h1 : d < 146097) :
    ∃ a b c n : Int, d = 36524 * a + 1461 * b + 365 * c + n ∧ (0 ≤ a ∧ a ≤ 3) ∧ (0 ≤ b ∧ b ≤ 24) ∧
      (0 ≤ c ∧ c ≤ 3) ∧ (0 ≤ n ∧ n ≤ 365) ∧ (n = 365 → c = 3 ∧ (b ≤ 23 ∨ a = 3)) := by
  -- the last day of an era belongs to its fourth century, which is a day longer
  obtain ⟨a, r, hr, ha, hr0, hr1, hr2⟩ : ∃ a r : Int, d = 36524 * a + r ∧ (0 ≤ a ∧ a ≤ 3) ∧ 0 ≤ r ∧
      r ≤ 36524 ∧ (r = 36524 → a = 3) := by
    by_cases h : d < 146096
    · exact ⟨d / 36524, d % 36524, by omega, by omega, by omega, by omega, by omega⟩
    · exact ⟨3, 36524, by omega, by omega, by omega, by omega, by omega⟩
  -- and the last day of a cycle to its fourth year
  obtain ⟨c, n, hn, hc, hn0, hn1⟩ : ∃ c n : Int, r % 1461 = 365 * c + n ∧ (0 ≤ c ∧ c ≤ 3) ∧
      (0 ≤ n ∧ n ≤ 365) ∧ (n = 365 → c = 3 ∧ r % 1461 = 1460) := by
    by_cases h : r % 1461 < 1460
    · exact ⟨r % 1461 / 365, r % 1461 % 365, by omega, by omega, by omega, by omega⟩
    · exact ⟨3, 365, by omega, by omega, by omega, by omega⟩
  exact ⟨a, r / 1461, c, n, by omega, ha, by omega, hc, hn0, fun h => by omega⟩

/-- The formula for the year of an era reads off the cycles. -/
theorem yearOfEra_cycles {a b c n d : Int} (hd : d = 36524 * a + 1461 * b + 365 * c + n)
    (ha : 0 ≤ a ∧ a ≤ 3) (hb : 0 ≤ b ∧ b ≤ 24) (hc : 0 ≤ c ∧ c ≤ 3) (hn : 0 ≤ n ∧ n ≤ 365)
    (hleap : n = 365 → c = 3 ∧ (b ≤ 23 ∨ a = 3)) :
    (d - d / 1460 + d / 36524 - d / 146096) / 365 = 100 * a + 4 * b + c := by
  have hlast : d / 36524 - d / 146096 = a := by
    by_cases h : d < 146096
    · rw [show d / 36524 = a by omega, show d / 146096 = 0 by omega]
      omega
    · rw [show d = 146096 by omega, show a = 3 by omega]
      omega
  have hquad : d / 1460 = 25 * a + b + (24 * a + b + 365 * c + n) / 1460 := by omega
  omega

/-! ## Years that begin in March -/

/-- A number of days is an era, a year of it and a day of that year, and the formula reads the day of
the calendar off these. -/
theorem exists_ofDays (days : Int) : ∃ era year day month : Int,
    days + 719468 = era * 146097 + (year * 365 + year / 4 - year / 100 + day) ∧
    (0 ≤ year ∧ year ≤ 399) ∧ (0 ≤ day ∧ day ≤ 365) ∧
    (day = 365 → year % 4 = 3 ∧ (year % 100 ≠ 99 ∨ year = 399)) ∧
    month = (5 * day + 2) / 153 ∧
    ofDays days =
      ⟨if (if month < 10 then month + 3 else month - 9) ≤ 2 then year + era * 400 + 1
        else year + era * 400,
        (if month < 10 then month + 3 else month - 9).toNat,
        (day - (153 * month + 2) / 5 + 1).toNat⟩ := by
  obtain ⟨a, b, c, n, hd, ha, hb, hc, hn, hleap⟩ :=
    exists_cycles (d := (days + 719468) % 146097) (by omega) (by omega)
  have hquad : (100 * a + 4 * b + c) / 4 = 25 * a + b := by omega
  have hcent : (100 * a + 4 * b + c) / 100 = a := by omega
  refine ⟨(days + 719468) / 146097, 100 * a + 4 * b + c, n, (5 * n + 2) / 153, ?_, by omega, hn, ?_,
    rfl, ?_⟩
  · rw [hquad, hcent]
    have := Int.mul_ediv_add_emod (days + 719468) 146097
    omega
  · omega
  · have hy := yearOfEra_cycles hd ha hb hc hn hleap
    have hday : (days + 719468) % 146097 - (365 * (100 * a + 4 * b + c) + (25 * a + b) - a) = n := by
      rw [hd]; ring
    simp only [ofDays, hy, hquad, hcent, hday]

/-- **Counting the days of a day gives it back.** -/
theorem toDays_ofDays (days : Int) : (ofDays days).toDays = days := by
  obtain ⟨era, year, day, month, hdays, hyear, hday, -, hmonth, h⟩ := exists_ofDays days
  have hm : 0 ≤ month ∧ month ≤ 11 := by omega
  have hd : 0 ≤ day - (153 * month + 2) / 5 := by omega
  have hdayNat : ((day - (153 * month + 2) / 5 + 1).toNat : Int) = day - (153 * month + 2) / 5 + 1 := by
    clear hdays h
    omega
  rw [h]
  -- January and February belong to the year before in the count that begins in March
  by_cases hlate : month < 10
  · have h1 : ¬ month + 3 ≤ 2 := by omega
    have h2 : ¬ (month + 3).toNat ≤ 2 := by omega
    have h3 : ((month + 3).toNat : Int) = month + 3 := by omega
    have hera : (year + era * 400) / 400 = era := by omega
    have hyearOf : (year + era * 400) % 400 = year := by omega
    simp only [toDays, hlate, if_true, h1, h2, if_false, h3, hdayNat, hera, hyearOf]
    rw [show month + 3 - 3 = month by ring]
    linarith
  · have h1 : month - 9 ≤ 2 := by omega
    have h2 : (month - 9).toNat ≤ 2 := by omega
    have h3 : ((month - 9).toNat : Int) = month - 9 := by omega
    have hera : (year + era * 400 + 1 - 1) / 400 = era := by omega
    have hyearOf : (year + era * 400 + 1 - 1) % 400 = year := by omega
    simp only [toDays, hlate, if_true, h1, h2, if_false, h3, hdayNat, hera, hyearOf]
    rw [show month - 9 + 9 = month by ring]
    linarith

/-- The day of a number of days is one of the calendar. -/
theorem ofDays_bounds (days : Int) :
    1 ≤ (ofDays days).month ∧ (ofDays days).month ≤ 12 ∧ 1 ≤ (ofDays days).day ∧
      (ofDays days).day ≤ daysInMonth (ofDays days).year (ofDays days).month := by
  obtain ⟨era, year, day, month, -, hyear, hday, hleap, hmonth, h⟩ := exists_ofDays days
  have hm : month = 0 ∨ month = 1 ∨ month = 2 ∨ month = 3 ∨ month = 4 ∨ month = 5 ∨ month = 6 ∨
      month = 7 ∨ month = 8 ∨ month = 9 ∨ month = 10 ∨ month = 11 := by omega
  rw [h]
  rcases hm with rfl | rfl | rfl | rfl | rfl | rfl | rfl | rfl | rfl | rfl | rfl | rfl <;>
    simp [daysInMonth, isLeapYear] <;> omega

end Gatehouse.Date
