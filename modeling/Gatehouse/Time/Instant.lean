import Gatehouse.Time.Calendar
import Gatehouse.Text.Digits

/-!
# Instants

A point of time in UTC, to the nanosecond.

* **Leap seconds.**  The second 23:59:60 of a day is held as the second 23:59:59 with a thousand
  million nanoseconds or more.  The order by seconds, then nanoseconds, puts it where it belongs:
  after 23:59:59.999999999 and before the next midnight.
* **Written form.**  `toText` is RFC 3339 with `Z`, and as many decimal places of a second as are
  needed out of none, three, six or nine.  Years outside of 0 to 9999 carry a sign.
-/

namespace Gatehouse

open Gatehouse.Text

/-- A point of time: whole seconds from 1970-01-01T00:00:00Z, and nanoseconds on top. -/
structure Instant where
  seconds : Int
  nanos : Nat
  deriving DecidableEq, Repr

namespace Instant

/-- The nanoseconds of a second. -/
def nanosPerSecond : Nat := 1000000000

/-- The seconds of a day. -/
def secondsPerDay : Nat := 86400

/-- Chronological order. -/
def compare (a b : Instant) : Ordering :=
  (Ord.compare a.seconds b.seconds).then (Ord.compare a.nanos b.nanos)

/-- Decimal digits, filled up with zeros on the left to `width`. -/
def padded (width n : Nat) : List Char :=
  let ds := decimal n
  List.replicate (width - ds.length) '0' ++ ds

/-- A year of four digits, or with its sign if it has no such form. -/
def yearText (year : Int) : List Char :=
  if 0 ≤ year ∧ year ≤ 9999 then padded 4 year.toNat
  else if 0 ≤ year then '+' :: padded 4 year.toNat
  else '-' :: padded 4 (-year).toNat

/-- The decimal places of a second: none, three, six or nine. -/
def fractionText (nanos : Nat) : List Char :=
  if nanos = 0 then []
  else if nanos % 1000000 = 0 then '.' :: padded 3 (nanos / 1000000)
  else if nanos % 1000 = 0 then '.' :: padded 6 (nanos / 1000)
  else '.' :: padded 9 nanos

/-- An instant in RFC 3339. -/
def toText (t : Instant) : String :=
  let date := Date.ofDays (t.seconds / secondsPerDay)
  let second := (t.seconds % secondsPerDay).toNat
  let isLeap := nanosPerSecond ≤ t.nanos
  String.ofList <|
    yearText date.year ++ '-' :: padded 2 date.month ++ '-' :: padded 2 date.day ++ 'T' ::
      padded 2 (second / 3600) ++ ':' :: padded 2 (second / 60 % 60) ++ ':' ::
      padded 2 (second % 60 + if isLeap then 1 else 0) ++
      fractionText (if isLeap then t.nanos - nanosPerSecond else t.nanos) ++ ['Z']

/-! ## Written instants -/

example : toText ⟨0, 0⟩ = "1970-01-01T00:00:00Z" := by decide +kernel
example : toText ⟨1893456001, 500000000⟩ = "2030-01-01T00:00:01.500Z" := by decide +kernel
example : toText ⟨-62167219201, 1⟩ = "-0001-12-31T23:59:59.000000001Z" := by decide +kernel
example : compare ⟨59, 1500000000⟩ ⟨60, 0⟩ = .lt := by decide

end Instant
end Gatehouse
