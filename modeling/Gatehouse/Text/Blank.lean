/-!
# Blank characters

The characters that separate words: the Unicode property `White_Space`.  Core's
`Char.isWhitespace` knows the six of ASCII only, so policies and filters pasted from a page that
uses a no-break or an ideographic space would be refused where they should be read.

1. **Data.** `blankRanges` lists the property as closed ranges of code points.
2. **Test.** `isBlank c` asks whether some range holds `c`.
3. **Trimming.** `trimBlank` drops the blanks at both ends of a text.
-/

namespace Gatehouse.Text

/-- The closed ranges of code points with the property `White_Space`, in increasing order. -/
def blankRanges : List (Nat × Nat) :=
  [(0x9, 0xD), (0x20, 0x20), (0x85, 0x85), (0xA0, 0xA0), (0x1680, 0x1680), (0x2000, 0x200A),
   (0x2028, 0x2029), (0x202F, 0x202F), (0x205F, 0x205F), (0x3000, 0x3000)]

/-- `isBlank c` — the character `c` separates words. -/
def isBlank (c : Char) : Bool :=
  blankRanges.any fun range => range.1 ≤ c.toNat && c.toNat ≤ range.2

/-- A text without the blanks at its two ends. -/
def trimBlank (cs : List Char) : List Char :=
  ((cs.dropWhile isBlank).reverse.dropWhile isBlank).reverse

/-- Every blank that core knows is one of ours. -/
theorem isBlank_of_isWhitespace {c : Char} (h : c.isWhitespace = true) : isBlank c = true := by
  simp only [Char.isWhitespace, Bool.or_eq_true, decide_eq_true_eq] at h
  rcases h with (((rfl | rfl) | rfl) | rfl) <;> decide

/-! ## The property in numbers -/

example : (blankRanges.map fun range => range.2 - range.1 + 1).sum = 25 := by decide
example : isBlank '\u00a0' = true ∧ isBlank '\u200b' = false := by decide
example : trimBlank "\u3000 a b\t".toList = "a b".toList := by decide

end Gatehouse.Text
