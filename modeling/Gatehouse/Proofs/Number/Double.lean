import Gatehouse.Number.Double
import Mathlib.Algebra.Group.Nat.Defs

/-!
# Doubles in order

Doubles are ordered by their keys, so their order has the laws of that of integers.  Whole numbers that a
significand can hold are doubles themselves, and so keep their order (`compare_ofInt`).

The rank of such a number is its binade and its significand, read off the leading bit
(`rankOfRatio_one`).  A greater number has a greater significand in the same binade, or stands in a later
binade, whose first rank comes after the last one of those before.
-/

namespace Gatehouse.Double

/-! ## Order -/

theorem compare_eq : Double.compare = compareOn key := rfl

instance : Std.TransCmp Double.compare := by
  rw [compare_eq]
  infer_instance

/-- Doubles have the same place if they are equal as numbers. -/
theorem compare_eq_eq {a b : Double} : a.compare b = .eq ↔ a.same b = true := by
  rw [compare_eq, same, decide_eq_true_iff]
  exact Std.LawfulEqOrd.compare_eq_iff_eq

/-! ## Whole numbers -/

/-- One past the numbers that a significand holds. -/
def wholeLimit : Nat := 2 ^ (fractionBits + 1)

theorem log2_lt_of_lt_wholeLimit {n : Nat} (hn : 0 < n) (h : n < wholeLimit) : n.log2 ≤ fractionBits :=
  Nat.le_of_lt_succ ((Nat.log2_lt (Nat.pos_iff_ne_zero.1 hn)).2 h)

theorem floorLog2_one {n : Nat} (hn : 0 < n) : floorLog2 n 1 = n.log2 := by
  have hle : Nat.pow 2 n.log2 ≤ n := Nat.log2_self_le (Nat.pos_iff_ne_zero.1 hn)
  have hlog : Nat.log2 1 = 0 := by decide
  have hneg : (-(n.log2 : Int)).toNat = 0 := by omega
  have hpow : Nat.pow 2 0 = 1 := rfl
  simp only [floorLog2, hlog, Int.natCast_zero, Int.sub_zero, hneg, Int.toNat_natCast, hpow, Nat.mul_one,
    Nat.one_mul]
  rw [if_neg (Nat.not_lt.2 hle)]

theorem roundDiv_one (n : Nat) : roundDiv n 1 = n := by
  simp [roundDiv, Nat.mod_one]

/-- The significand of a whole number. -/
def significand (n : Nat) : Nat := n * 2 ^ (fractionBits - n.log2)

theorem significand_bounds {n : Nat} (hn : 0 < n) (h : n < wholeLimit) :
    2 ^ fractionBits ≤ significand n ∧ significand n < 2 ^ (fractionBits + 1) := by
  have hlog := log2_lt_of_lt_wholeLimit hn h
  have hle := Nat.mul_le_mul_right (2 ^ (fractionBits - n.log2)) (Nat.log2_self_le (Nat.pos_iff_ne_zero.1 hn))
  have hlt := Nat.mul_lt_mul_of_pos_right (Nat.lt_log2_self (n := n)) (Nat.two_pow_pos (fractionBits - n.log2))
  rw [← Nat.pow_add, Nat.add_sub_cancel' hlog] at hle
  rw [← Nat.pow_add, Nat.add_right_comm, Nat.add_sub_cancel' hlog] at hlt
  exact ⟨hle, hlt⟩

/-- **The rank of a whole number is its binade and its significand.** -/
theorem rankOfRatio_one {n : Nat} (hn : 0 < n) (h : n < wholeLimit) :
    rankOfRatio n 1 = (n.log2 + 1022) * 2 ^ fractionBits + significand n := by
  have hlog := log2_lt_of_lt_wholeLimit hn h
  obtain ⟨-, hlt⟩ := significand_bounds hn h
  have hexponent : max ((n.log2 : Int) - fractionBits) leastExponent = (n.log2 : Int) - fractionBits := by
    simp only [fractionBits, leastExponent] at hlog ⊢
    omega
  have hshift : (-((n.log2 : Int) - fractionBits)).toNat = fractionBits - n.log2 := by omega
  have hdown : ((n.log2 : Int) - fractionBits).toNat = 0 := by omega
  have hbinade : ((n.log2 : Int) - fractionBits - leastExponent).toNat = n.log2 + 1022 := by
    simp only [fractionBits, leastExponent] at hlog ⊢
    omega
  have hone : 1 * Nat.pow 2 0 = 1 := rfl
  have hpow : n * Nat.pow 2 (fractionBits - n.log2) = significand n := rfl
  rw [rankOfRatio, if_neg (Nat.pos_iff_ne_zero.1 hn)]
  simp only [floorLog2_one hn, hexponent, hshift, hdown, hbinade, hone, hpow, roundDiv_one]
  refine Nat.min_eq_left ?_
  show (n.log2 + 1022) * 2 ^ fractionBits + significand n ≤ 2047 * 2 ^ fractionBits
  simp only [fractionBits] at hlog hlt ⊢
  omega

theorem rankOfRatio_one_lt {m n : Nat} (hmn : m < n) (h : n < wholeLimit) :
    rankOfRatio m 1 < rankOfRatio n 1 := by
  have hn : 0 < n := Nat.zero_lt_of_lt hmn
  obtain ⟨hle, -⟩ := significand_bounds hn h
  rw [rankOfRatio_one hn h]
  cases Nat.eq_zero_or_pos m with
  | inl hzero =>
    rw [hzero]
    exact Nat.lt_of_lt_of_le (Nat.two_pow_pos _) (Nat.le_trans hle (Nat.le_add_left _ _))
  | inr hm =>
    have hm' : m < wholeLimit := Nat.lt_trans hmn h
    obtain ⟨-, hlt⟩ := significand_bounds hm hm'
    rw [rankOfRatio_one hm hm']
    have hlog : m.log2 ≤ n.log2 := by
      rw [Nat.le_log2 (Nat.pos_iff_ne_zero.1 hn)]
      exact Nat.le_trans (Nat.log2_self_le (Nat.pos_iff_ne_zero.1 hm)) (Nat.le_of_lt hmn)
    rcases Nat.lt_or_eq_of_le hlog with hlog | hlog
    · simp only [fractionBits] at hle hlt ⊢
      omega
    · refine Nat.add_lt_add_of_le_of_lt (Nat.le_of_eq (by rw [hlog])) ?_
      rw [significand, significand, hlog]
      exact Nat.mul_lt_mul_of_pos_right hmn (Nat.two_pow_pos _)

/-- **Whole numbers keep their order.** -/
theorem compare_ofInt {m n : Nat} (hm : m < wholeLimit) (hn : n < wholeLimit) :
    (ofInt m).compare (ofInt n) = Ord.compare m n := by
  have hkey : ∀ k : Nat, (ofInt k).key = (rankOfRatio k 1 : Int) := fun k => by
    have hsign : ¬ (k : Int) < 0 := by omega
    simp [key, ofInt, hsign]
  rw [compare_eq, compareOn, hkey, hkey]
  rcases Nat.lt_trichotomy m n with hlt | rfl | hlt
  · rw [Nat.compare_eq_lt.2 hlt, Int.compare_eq_lt.2 (Int.ofNat_lt.2 (rankOfRatio_one_lt hlt hn))]
  · rw [Nat.compare_eq_eq.2 rfl, Int.compare_eq_eq.2 rfl]
  · rw [Nat.compare_eq_gt.2 hlt, Int.compare_eq_gt.2 (Int.ofNat_lt.2 (rankOfRatio_one_lt hlt hm))]

end Gatehouse.Double
