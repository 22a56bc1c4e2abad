/-!
# Escapes by number

Both JSON and policies write a character by four hexadecimal digits, which name a unit of UTF-16:
a character of the basic plane, or one half of a pair of surrogates.
-/

namespace Gatehouse.Text

/-- The value of a hexadecimal digit. -/
def hexValue? (c : Char) : Option Nat :=
  if '0' ≤ c ∧ c ≤ '9' then some (c.toNat - 48)
  else if 'a' ≤ c ∧ c ≤ 'f' then some (c.toNat - 87)
  else if 'A' ≤ c ∧ c ≤ 'F' then some (c.toNat - 55)
  else none

/-- The number that four hexadecimal digits write. -/
def hex4? (a b c d : Char) : Option Nat := do
  let w ← hexValue? a
  let x ← hexValue? b
  let y ← hexValue? c
  let z ← hexValue? d
  return ((w * 16 + x) * 16 + y) * 16 + z

/-- The number is the first half of a pair of surrogates. -/
def isLead (n : Nat) : Bool := 0xD800 ≤ n && n < 0xDC00

/-- The number is the second half of a pair of surrogates. -/
def isTrail (n : Nat) : Bool := 0xDC00 ≤ n && n < 0xE000

example : hex4? 'd' '8' '3' 'D' = some 0xD83D ∧ hex4? '0' '0' 'g' '0' = none := by decide

end Gatehouse.Text
