import Gatehouse.Number.Double
import Gatehouse.Text.Digits

/-!
# The shortest decimal that reads back

A double is written with the fewest significant digits that still read back as that double, and of
those with the nearest.

* **The interval.**  The reals that round to `m * 2 ^ q` lie between the midpoints to its two
  neighbours; the midpoints themselves belong to it exactly when `m` is even.  At the bottom of a
  binade the lower neighbour is half as far away.  `Bounds` holds the three points over a common
  denominator, so that everything below is arithmetic on naturals.
* **The grid.**  The decimals of `n` significant digits near the value form a grid.  If any grid
  point lies in the interval, then so does one of the value's two neighbours on the grid, so two
  tests per `n` suffice; seventeen digits always do.
* **Layout.**  `positional` places the point among the digits, filling up with zeros.
-/

namespace Gatehouse.Double

open Gatehouse.Text

/-- The value and the ends of its rounding interval, over one denominator. -/
structure Bounds where
  low : Nat
  value : Nat
  high : Nat
  denominator : Nat
  closed : Bool

/-- The rounding interval of a finite double other than zero. -/
def bounds (d : Double) : Bounds :=
  let (m, q) := d.scaled
  let below := if m = Nat.pow 2 fractionBits && d.rank ≠ m then 4 * m - 1 else 4 * m - 2
  let up := Nat.pow 2 q.toNat
  ⟨below * up, 4 * m * up, (4 * m + 2) * up, 4 * Nat.pow 2 (-q).toNat, m % 2 = 0⟩

namespace Bounds

/-- `num / den` lies in the interval. -/
def holds (b : Bounds) (num den : Nat) : Bool :=
  let x := num * b.denominator
  if b.closed then b.low * den ≤ x && x ≤ b.high * den else b.low * den < x && x < b.high * den

/-- The number of digits before the point; for values below one, minus the zeros after it. -/
def magnitude (b : Bounds) : Int :=
  if b.denominator ≤ b.value then ((decimal (b.value / b.denominator)).length : Int)
  else
    match (List.range 400).find? fun j => b.denominator ≤ b.value * Nat.pow 10 (j + 1) with
    | some j => -(j : Int)
    | none => 0

/-- The grid point of `n` digits that reads back and is nearest, with its power of ten. -/
def onGrid? (b : Bounds) (n : Nat) : Option (Nat × Int) :=
  let exponent := b.magnitude - n
  let up := Nat.pow 10 exponent.toNat
  let down := Nat.pow 10 (-exponent).toNat
  let floor := b.value * down / (b.denominator * up)
  let rest := b.value * down % (b.denominator * up)
  let lowHit := b.holds (floor * up) down
  let highHit := b.holds ((floor + 1) * up) down
  if lowHit && (!highHit || 2 * rest ≤ b.denominator * up) then some (floor, exponent)
  else if highHit then some (floor + 1, exponent)
  else none

end Bounds

/-- Drop the zeros at the end of the digits. -/
def dropZeros : Nat → Nat × Int → Nat × Int
  | 0, p => p
  | n + 1, (digits, exponent) =>
    if digits ≠ 0 && digits % 10 = 0 then dropZeros n (digits / 10, exponent + 1)
    else (digits, exponent)

/-- The digits and the power of ten of the shortest decimal of a finite double. -/
def shortest (d : Double) : Nat × Int :=
  if d.rank = 0 then (0, 0)
  else
    match (List.range 17).findSome? fun n => d.bounds.onGrid? (n + 1) with
    | some p => dropZeros 17 p
    | none => (0, 0)

/-- Digits with the point placed by the power of ten, without a fraction of zeros. -/
def positional (digits : Nat) (exponent : Int) : List Char :=
  let ds := decimal digits
  if 0 ≤ exponent then ds ++ List.replicate exponent.toNat '0'
  else
    let places := (-exponent).toNat
    if places < ds.length then ds.take (ds.length - places) ++ '.' :: ds.drop (ds.length - places)
    else '0' :: '.' :: List.replicate (places - ds.length) '0' ++ ds

/-- A double in positional notation, whatever its size. -/
def plain (d : Double) : List Char :=
  let (digits, exponent) := d.shortest
  (if d.negative then ['-'] else []) ++
    (if d.isFinite then positional digits exponent else "inf".toList)

/-! ## Written numbers -/

example : (ofDecimal false 1 (-1)).plain = "0.1".toList := by decide +kernel
example : (ofDecimal true 25 (-1)).plain = "-2.5".toList := by decide +kernel
example : (ofInt 1).plain = "1".toList ∧ plain ⟨true, 0⟩ = "-0".toList := by decide +kernel
example : (ofDecimal false 5 (-324)).shortest = (5, -324) := by decide +kernel
example : (ofDecimal false 1 23).shortest = (1, 23) := by decide +kernel
example : (ofDecimal false 17976931348623157 292).shortest = (17976931348623157, 292) := by
  decide +kernel

end Gatehouse.Double
