import Gatehouse.Json.Basic
import Gatehouse.Time.Reading

/-!
# The order of JSON scalars

Filters and sorted searches put values in order.

* **Within a kind.**  Numbers are ordered as doubles, whatever way they are written; `false` comes
  before `true`; `null` equals itself.  Texts are ordered by code points, unless both are times: then
  the earlier instant comes first, whatever their offsets.
* **Across kinds**, and for arrays and objects, there is no order.
-/

namespace Gatehouse.Json

/-- Two texts, as times if both are times. -/
def compareTexts (a b : String) : Ordering :=
  match Instant.ofStrict? a, Instant.ofStrict? b with
  | some s, some t => s.compare t
  | _, _ => Ord.compare a b

/-- The order of two values; `none` if they have none. -/
def compare? : Json → Json → Option Ordering
  | .number a, .number b => some (a.toDouble.compare b.toDouble)
  | .string a, .string b => some (compareTexts a b)
  | .bool a, .bool b => some (Ord.compare a b)
  | .null, .null => some .eq
  | _, _ => none

end Gatehouse.Json
