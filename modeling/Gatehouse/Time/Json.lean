import Gatehouse.Json.Record
import Gatehouse.Time.Reading

/-!
# Instants in records

A record writes an instant as its text in UTC, and reads any text that names one.
-/

namespace Gatehouse.Instant

/-- An instant as a value. -/
def toJson (t : Instant) : Json := .string t.toText

/-- The instant that a value is. -/
def ofJson? (value : Json) : Option Instant := (Json.string? value).bind ofLenient?

end Gatehouse.Instant
