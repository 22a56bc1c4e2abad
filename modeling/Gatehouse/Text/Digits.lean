/-!
# Counts in decimal

Ids, page tokens and settings carry counts as decimal digits.

1. **Writing.**  `decimal n` has no leading zero and at least one digit.
2. **Reading.**  `readCount? limit cs` takes one or more digits, after an optional plus sign, and
   answers only counts below `limit`.  Leading zeros are read, so several texts name one count:
   reading is a left inverse of writing, not its inverse.
-/

namespace Gatehouse.Text

/-- The decimal digits of a count. -/
def decimal (n : Nat) : List Char := Nat.toDigits 10 n

/-- The value of a digit. -/
def digitValue (c : Char) : Nat := c.toNat - '0'.toNat

/-- The number that digits write, most significant first. -/
def ofDigits (cs : List Char) : Nat := cs.foldl (fun n c => 10 * n + digitValue c) 0

/-- Digits only, and at least one. -/
def isDigits (cs : List Char) : Bool := !cs.isEmpty && cs.all Char.isDigit

/-- Digits without their sign, if it is a plus. -/
def dropPlus : List Char → List Char
  | '+' :: cs => cs
  | cs => cs

/-- The count below `limit` that a text of digits writes. -/
def readCount? (limit : Nat) (cs : List Char) : Option Nat :=
  let digits := dropPlus cs
  if isDigits digits && ofDigits digits < limit then some (ofDigits digits) else none

/-! ## Reading and writing -/

example : decimal 0 = ['0'] ∧ decimal 1024 = ['1', '0', '2', '4'] := by decide
example : readCount? 256 "+007".toList = some 7 := by decide +kernel
example : readCount? 256 "256".toList = none ∧ readCount? 256 "+".toList = none ∧
    readCount? 256 "-1".toList = none := by decide +kernel

end Gatehouse.Text
