import Gatehouse.Time.Instant
import Gatehouse.Text.Blank

/-!
# Reading instants

Two readings of RFC 3339.

* **Strict** (`Instant.ofStrict?`) decides whether two texts compare as times.  Every field has its
  full width; the date and the time are parted by `T`, `t` or a space; the offset is `Z`, `z` or a
  sign, two digits, a colon and two digits, and is less than a day.
* **Lenient** (`Instant.ofLenient?`) reads the times of stored documents.  Fields may be short and
  may have blanks before them, years may be long under a sign, the colon of the offset may be
  missing, and the offset may be the word `UTC`.
* **Common ground.**  A sign of an offset may be the minus sign U+2212.  The ninth decimal place of
  a second is the last that counts.  A sixtieth second is a leap second.
-/

namespace Gatehouse

open Gatehouse.Text

/-- A reader of one item of a time: what is read and what is left. -/
abbrev TimeReader := StateT (List Char) Option

namespace TimeReader

/-- Between `least` and `most` digits, as many as there are. -/
def number (least most : Nat) : TimeReader Nat := fun cs =>
  let digits := (cs.take most).takeWhile Char.isDigit
  if digits.length < least then none else some (ofDigits digits, cs.drop digits.length)

/-- One of the given characters. -/
def oneOf (choices : List Char) : TimeReader Char
  | c :: cs => if choices.contains c then some (c, cs) else none
  | [] => none

/-- Drop blanks. -/
def blanks : TimeReader Unit := fun cs => some ((), cs.dropWhile isBlank)

/-- The decimal places of a second, in nanoseconds; zero if there is no point. -/
def fraction : TimeReader Nat
  | '.' :: cs =>
    let digits := cs.takeWhile Char.isDigit
    let counted := digits.take 9
    if counted.isEmpty then none
    else some (ofDigits counted * Nat.pow 10 (9 - counted.length), cs.drop digits.length)
  | cs => some (0, cs)

/-- The seconds of an offset from UTC; `separator` reads what parts its hours and minutes. -/
def offset (separator : TimeReader Unit) : TimeReader Int := fun cs =>
  match cs with
  | 'Z' :: rest => some (0, rest)
  | 'z' :: rest => some (0, rest)
  | _ => (do
      let sign ← oneOf ['+', '-', '\u2212']
      let hours ← number 2 2
      separator
      let minutes ← number 2 2
      if 59 < minutes then failure
      let seconds : Int := hours * 3600 + minutes * 60
      if secondsPerDay ≤ seconds.natAbs then failure
      return if sign = '+' then seconds else -seconds) cs
where
  secondsPerDay : Nat := Instant.secondsPerDay

/-- A year that may be signed, and is then of any length. -/
def signedYear : TimeReader Int := fun cs =>
  match cs with
  | '-' :: rest => ((fun n : Nat => -(n : Int)) <$> number 1 rest.length) rest
  | '+' :: rest => ((fun n : Nat => (n : Int)) <$> number 1 rest.length) rest
  | _ => ((fun n : Nat => (n : Int)) <$> number 1 4) cs

/-- The word `UTC` in any case. -/
def utcWord : TimeReader Int
  | a :: b :: c :: rest =>
    if [a, b, c].map Char.toLower = ['u', 't', 'c'] then some (0, rest) else none
  | _ => none

/-- A number of one or two digits, after blanks. -/
def field : TimeReader Nat := do blanks; number 1 2

end TimeReader

namespace Instant

/-- The instant of a wall clock that is `offset` seconds ahead of UTC. -/
def ofWallClock? (date : Date) (hour minute second nanos : Nat) (offset : Int) : Option Instant :=
  if date.isValid && hour ≤ 23 && minute ≤ 59 && second ≤ 60 then
    let whole := hour * 3600 + minute * 60 + min second 59
    let extra := if second = 60 then nanosPerSecond else 0
    let seconds := date.toDays * secondsPerDay + whole - offset
    let year := (Date.ofDays (seconds / secondsPerDay)).year
    if Date.leastYear ≤ year && year ≤ Date.greatestYear then some ⟨seconds, nanos + extra⟩
    else none
  else none

open TimeReader

/-- Read an instant with every field in its full width. -/
def strict : TimeReader (Option Instant) := do
  let year ← number 4 4
  let _ ← oneOf ['-']
  let month ← number 2 2
  let _ ← oneOf ['-']
  let day ← number 2 2
  let _ ← oneOf ['T', 't', ' ']
  let hour ← number 2 2
  let _ ← oneOf [':']
  let minute ← number 2 2
  let _ ← oneOf [':']
  let second ← number 2 2
  let nanos ← fraction
  let ahead ← offset (do let _ ← oneOf [':'])
  return ofWallClock? ⟨year, month, day⟩ hour minute second nanos ahead

/-- Read an instant with short fields and blanks between them. -/
def lenient : TimeReader (Option Instant) := do
  blanks
  let year ← signedYear
  blanks
  let _ ← oneOf ['-']
  let month ← field
  blanks
  let _ ← oneOf ['-']
  let day ← field
  let _ ← oneOf ['T', 't', ' ']
  let hour ← field
  blanks
  let _ ← oneOf [':']
  let minute ← field
  blanks
  let _ ← oneOf [':']
  let second ← field
  let nanos ← fraction
  blanks
  let ahead ← utcWord <|> offset fun cs => some ((), cs.dropWhile fun c => c = ':' || isBlank c)
  blanks
  return ofWallClock? ⟨year, month, day⟩ hour minute second nanos ahead

/-- What a reader makes of a whole text. -/
def ofWhole? (reader : TimeReader (Option Instant)) (s : String) : Option Instant :=
  match reader s.toList with
  | some (t, []) => t
  | _ => none

/-- The instant that a text writes in strict RFC 3339. -/
def ofStrict? (s : String) : Option Instant := ofWhole? strict s

/-- The instant that a text writes in lenient RFC 3339. -/
def ofLenient? (s : String) : Option Instant := ofWhole? lenient s

/-! ## Texts and instants -/

example : ofStrict? "1970-01-01T00:00:00Z" = some ⟨0, 0⟩ := by decide +kernel
example : ofStrict? "2030-01-01t02:00:01.5+02:00" = some ⟨1893456001, 500000000⟩ := by
  decide +kernel
example : ofStrict? "2016-12-31T23:59:60Z" = some ⟨1483228799, 1000000000⟩ := by decide +kernel
example : ofStrict? "2030-1-01T00:00:00Z" = none ∧ ofStrict? "2021-02-29T00:00:00Z" = none ∧
    ofStrict? "2021-02-28T00:00:00+0200" = none := by decide +kernel
example : ofLenient? "2030-1-1 0:0:01 UTC" = some ⟨1893456001, 0⟩ := by decide +kernel
example : ofLenient? (toText ⟨-62167219201, 1⟩) = some ⟨-62167219201, 1⟩ := by decide +kernel

end Instant
end Gatehouse
