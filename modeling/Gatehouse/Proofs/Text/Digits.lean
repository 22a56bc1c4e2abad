import Gatehouse.Policy.VersionId
import Gatehouse.Time.Instant
import Mathlib.Algebra.Group.Nat.Defs

/-!
# Digits read back

Counts are written in decimal, in ids, dates and versions.  Reading what was written gives the count
back, filled up with zeros or not, and so no two counts are written alike.  An id of a version is a
text, a point and a count; a count has no point, so the last point parts the two and the id names one
version only.
-/

namespace Gatehouse.Text

/-! ## Decimal digits -/

theorem isDigits_iff {cs : List Char} : isDigits cs = true ↔ cs ≠ [] ∧ ∀ c ∈ cs, c.isDigit = true := by
  simp [isDigits]

theorem isDigits_cons {c : Char} {cs : List Char} :
    isDigits (c :: cs) = true ↔ c.isDigit = true ∧ ∀ d ∈ cs, d.isDigit = true := by
  simp [isDigits]

theorem exists_cons_of_isDigits {cs : List Char} (h : isDigits cs = true) :
    ∃ c ds, cs = c :: ds ∧ c.isDigit = true ∧ ∀ d ∈ ds, d.isDigit = true := by
  cases cs with
  | nil => cases h
  | cons c ds => exact ⟨c, ds, rfl, isDigits_cons.1 h⟩

theorem ofDigits_eq (cs : List Char) : ofDigits cs = Nat.ofDigitChars 10 cs 0 := by
  rw [Nat.ofDigitChars_eq_foldl]
  rfl

/-- Reading the digits of a count gives it back. -/
@[simp] theorem ofDigits_decimal (n : Nat) : ofDigits (decimal n) = n := by
  rw [ofDigits_eq]
  exact Nat.ofDigitChars_ten_toDigits

theorem isDigit_of_mem_decimal {n : Nat} {c : Char} (h : c ∈ decimal n) : c.isDigit = true :=
  Nat.isDigit_of_mem_toDigits (by decide) (by decide) h

theorem decimal_ne_nil (n : Nat) : decimal n ≠ [] := Nat.toDigits_ne_nil

theorem decimal_injective {m n : Nat} (h : decimal m = decimal n) : m = n := by
  rw [← ofDigits_decimal m, h, ofDigits_decimal]

theorem isDigits_decimal (n : Nat) : isDigits (decimal n) = true :=
  isDigits_iff.2 ⟨decimal_ne_nil n, fun _ => isDigit_of_mem_decimal⟩

/-- A count below the limit is read back. -/
theorem readCount?_decimal {limit n : Nat} (h : n < limit) : readCount? limit (decimal n) = some n := by
  have hplus : dropPlus (decimal n) = decimal n := by
    unfold dropPlus
    split
    · rename_i cs hcs
      have hd : '+'.isDigit = true := isDigit_of_mem_decimal (n := n) (hcs ▸ List.mem_cons_self)
      exact absurd hd (by decide)
    · rfl
  simp [readCount?, hplus, isDigits_decimal, h]

/-! ## Single digits -/

/-- A digit is as far from the first one as its value says. -/
theorem toNat_of_isDigit {c : Char} (h : c.isDigit = true) :
    c.toNat = 48 + digitValue c ∧ digitValue c < 10 := by
  have hc : 48 ≤ c.toNat ∧ c.toNat ≤ 57 := by
    simpa [Char.isDigit, UInt32.le_iff_toNat_le] using h
  show c.toNat = 48 + (c.toNat - 48) ∧ c.toNat - 48 < 10
  omega

theorem digitValue_lt {c : Char} (h : c.isDigit = true) : digitValue c < 10 := (toNat_of_isDigit h).2

/-- A digit is the one that is written for its value. -/
theorem digitChar_digitValue {c : Char} (h : c.isDigit = true) : (digitValue c).digitChar = c := by
  apply Char.toNat_inj.1
  rw [Nat.toNat_digitChar_of_lt_ten (digitValue_lt h), (toNat_of_isDigit h).1]

theorem decimal_digitValue {c : Char} (h : c.isDigit = true) : decimal (digitValue c) = [c] := by
  rw [decimal, Nat.toDigits_of_lt_base (digitValue_lt h), digitChar_digitValue h]

/-! ## Digits filled up with zeros -/

theorem isDigit_of_mem_zeros {zeros n : Nat} {c : Char} (h : c ∈ List.replicate zeros '0' ++ decimal n) :
    c.isDigit = true := by
  rcases List.mem_append.1 h with h | h
  · rw [List.eq_of_mem_replicate h]
    rfl
  · exact isDigit_of_mem_decimal h

/-- Zeros before a count change nothing. -/
theorem ofDigits_zeros (zeros n : Nat) : ofDigits (List.replicate zeros '0' ++ decimal n) = n := by
  rw [ofDigits_eq, Nat.ofDigitChars_append, Nat.ofDigitChars_replicate_zero, Nat.mul_zero]
  exact Nat.ofDigitChars_ten_toDigits

theorem isDigit_of_mem_padded {width n : Nat} {c : Char} (h : c ∈ Instant.padded width n) :
    c.isDigit = true := isDigit_of_mem_zeros h

@[simp] theorem ofDigits_padded (width n : Nat) : ofDigits (Instant.padded width n) = n :=
  ofDigits_zeros _ n

/-- A count that fits the width fills it. -/
theorem length_padded {width n : Nat} (hw : 0 < width) (h : n < 10 ^ width) :
    (Instant.padded width n).length = width := by
  have hle : (decimal n).length ≤ width := (Nat.length_toDigits_le_iff (by decide) hw).2 h
  simp only [Instant.padded, List.length_append, List.length_replicate]
  omega

theorem le_length_padded (width n : Nat) : width ≤ (Instant.padded width n).length := by
  simp only [Instant.padded, List.length_append, List.length_replicate]
  omega

theorem padded_ne_nil (width n : Nat) : Instant.padded width n ≠ [] :=
  List.append_ne_nil_of_right_ne_nil _ (decimal_ne_nil n)

end Gatehouse.Text

/-! ## Ids of versions -/

namespace Gatehouse.Policy

open Gatehouse.Text

/-- A text, the separator and a text without it are parted at the last separator. -/
theorem cutLast_append {separator : Char} (a : List Char) {b : List Char} (h : separator ∉ b) :
    cutLast separator (a ++ separator :: b) = some (a, b) := by
  have hrev : (a ++ separator :: b).reverse = b.reverse ++ separator :: a.reverse := by simp
  rw [cutLast, hrev, cut_append _ (by simpa using h)]
  simp

theorem point_notMem_decimal (n : Nat) : '.' ∉ decimal n := fun h =>
  absurd (isDigit_of_mem_decimal h) (by decide)

/-- **Reading an id of a version gives its policy and its number.** -/
theorem ofVersionId?_versionId {policyId : String} (h : policyId.isEmpty = false) (n : UInt32) :
    ofVersionId? (versionId policyId n) = some (policyId, n) := by
  have hne : policyId.toList ≠ [] := by simpa using h
  simp [ofVersionId?, versionId, cutLast_append _ (point_notMem_decimal n.toNat), hne,
    readCount?_decimal (show n.toNat < versionLimit from n.toNat_lt)]

/-- The id of a version names its policy and its number. -/
theorem versionId_injective {p q : String} {m n : UInt32} (h : versionId p m = versionId q n) :
    p = q ∧ m = n := by
  have hl : p.toList ++ '.' :: decimal m.toNat = q.toList ++ '.' :: decimal n.toNat :=
    String.ofList_injective h
  have hcut := cutLast_append p.toList (point_notMem_decimal m.toNat)
  rw [hl, cutLast_append q.toList (point_notMem_decimal n.toNat)] at hcut
  simp only [Option.some.injEq, Prod.mk.injEq] at hcut
  exact ⟨String.toList_inj.1 hcut.1.symm, UInt32.toNat_inj.1 (decimal_injective hcut.2.symm)⟩

/-- An id of a version holds a point. -/
theorem point_mem_versionId (p : String) (n : UInt32) : '.' ∈ (versionId p n).toList := by
  simp [versionId]

end Gatehouse.Policy
