/-!
# Doubles

Filters and documents compare numbers as IEEE 754 doubles.  Arithmetic on them is rare here
(scaling by a power of ten when a number is read), order is everywhere, so a double is held by what
orders it.

1. **Representation.**  A sign and a `rank`: the place of the absolute value among the doubles that
   are not negative, zero having rank 0.  The rank is also the bit pattern without its sign bit, and
   `infinityRank` is the first rank with no finite value.
2. **Order.**  `key` puts the sign on the rank.  Two doubles compare as their keys do; the two zeros
   share the key 0.  No NaN is represented: nothing that reads a number here produces one.
3. **Rounding (the crux).**  `rankOfRatio num den` is the rank nearest to `num / den`, a tie going to
   the even rank.  Because ranks of one binade are consecutive and binades follow each other without
   a gap, the rank is `binade * 2 ^ 52 + significand` for normal and subnormal numbers alike, and a
   significand that rounds up to `2 ^ 53` carries into the next binade by that very formula.
-/

namespace Gatehouse

/-- A double that is not NaN: its sign and the place of its absolute value. -/
structure Double where
  negative : Bool
  rank : Nat
  deriving DecidableEq, Repr

namespace Double

/-- Bits of a significand after the leading one. -/
def fractionBits : Nat := 52

/-- The binary exponent of the last bit of the smallest doubles. -/
def leastExponent : Int := -1074

/-- The rank of infinity. -/
def infinityRank : Nat := 2047 * Nat.pow 2 fractionBits

/-- The value is a number, not an infinity. -/
def isFinite (d : Double) : Bool := d.rank < infinityRank

/-! ## Order -/

/-- The rank under its sign. -/
def key (d : Double) : Int := if d.negative then -(d.rank : Int) else d.rank

/-- Numeric order. -/
def compare (a b : Double) : Ordering := Ord.compare a.key b.key

/-- Numeric equality: the two zeros are equal. -/
def same (a b : Double) : Bool := a.key = b.key

/-- The 64 bits of the interchange format, as a number. -/
def bits (d : Double) : Nat := (if d.negative then Nat.pow 2 63 else 0) + d.rank

/-! ## Value -/

/-- The significand and the binary exponent of the absolute value `m * 2 ^ q`. -/
def scaled (d : Double) : Nat × Int :=
  let binade := d.rank / Nat.pow 2 fractionBits
  if binade = 0 then (d.rank, leastExponent)
  else (Nat.pow 2 fractionBits + d.rank % Nat.pow 2 fractionBits, leastExponent + (binade - 1))

/-- The absolute value as a fraction. -/
def ratio (d : Double) : Nat × Nat :=
  let (m, q) := d.scaled
  (m * Nat.pow 2 q.toNat, Nat.pow 2 (-q).toNat)

/-! ## Rounding -/

/-- The quotient rounded to the nearest number, a tie to the even one. -/
def roundDiv (num den : Nat) : Nat :=
  let low := num / den
  let twice := 2 * (num % den)
  if twice < den then low else if den < twice then low + 1 else low + low % 2

/-- The exponent of the power of two at or below `num / den`. -/
def floorLog2 (num den : Nat) : Int :=
  let e : Int := (Nat.log2 num : Int) - Nat.log2 den
  if num * Nat.pow 2 (-e).toNat < den * Nat.pow 2 e.toNat then e - 1 else e

/-- The rank nearest to `num / den`. -/
def rankOfRatio (num den : Nat) : Nat :=
  if num = 0 then 0
  else
    let q := max (floorLog2 num den - fractionBits) leastExponent
    let m := roundDiv (num * Nat.pow 2 (-q).toNat) (den * Nat.pow 2 q.toNat)
    min ((q - leastExponent).toNat * Nat.pow 2 fractionBits + m) infinityRank

/-- The double nearest to an integer. -/
def ofInt (i : Int) : Double := ⟨decide (i < 0), rankOfRatio i.natAbs 1⟩

/-- The double nearest to `digits * 10 ^ exponent`. -/
def ofDecimal (negative : Bool) (digits : Nat) (exponent : Int) : Double :=
  ⟨negative, rankOfRatio (digits * Nat.pow 10 exponent.toNat) (Nat.pow 10 (-exponent).toNat)⟩

/-- The product, rounded once. -/
def mul (a b : Double) : Double :=
  let (m, n) := a.ratio
  let (x, y) := b.ratio
  ⟨a.negative != b.negative, rankOfRatio (m * x) (n * y)⟩

/-- The quotient by a double other than zero, rounded once. -/
def div (a b : Double) : Double :=
  let (m, n) := a.ratio
  let (x, y) := b.ratio
  ⟨a.negative != b.negative, rankOfRatio (m * y) (n * x)⟩

/-! ## Landmarks -/

example : (ofInt 1).bits = 0x3FF0000000000000 := by decide +kernel
example : (ofInt (-2)).bits = 0xC000000000000000 := by decide +kernel
example : (ofDecimal false 1 (-1)).bits = 0x3FB999999999999A := by decide +kernel
example : (ofDecimal false 5 (-324)).rank = 1 := by decide +kernel
example : (ofDecimal false 1 309).isFinite = false := by decide +kernel
example : (ofInt 9007199254740993).same (ofInt 9007199254740992) = true := by decide +kernel
example : same ⟨true, 0⟩ ⟨false, 0⟩ = true := by decide

end Double
end Gatehouse
