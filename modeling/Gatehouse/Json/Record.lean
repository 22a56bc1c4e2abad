import Gatehouse.Json.Reader

/-!
# Records in JSON

The documents and messages of the service are records of named members.

* **Shape.**  A record is an object whose own members are written once each; members of other names
  are passed over.  A record of named members only may also be written as the array of its members
  in their order (`Record.ofJson?`); one that keeps the members it does not know has no such form
  (`Record.ofObject?`).
* **Members.**  A member is required, has a default when it is not written, or is optional: then
  both absence and `null` mean that there is none.
* **Writing** is a plain list of members; `memberUnless` and `memberOfSome` build the parts that may be left out.
-/

namespace Gatehouse.Json

/-- A record as its decoder sees it: the value written for each name. -/
abbrev Record := String → Option Json

namespace Record

/-- The record that an object writes; `none` if one of the given names is written twice. -/
def ofObject? (names : List String) : Json → Option Record
  | .object members =>
    if names.all fun name => (members.filter fun m => m.1 = name).length ≤ 1 then
      some fun name => Json.member? name members
    else none
  | _ => none

/-- The record that an object or an array of members writes; an array has at least `least` items. -/
def ofJsonFrom? (least : Nat) (names : List String) : Json → Option Record
  | .array items =>
    if least ≤ items.length ∧ items.length ≤ names.length then
      some fun name => Json.member? name (names.zip items)
    else none
  | value => ofObject? names value

/-- The record that an object or an array of members writes. -/
def ofJson? (names : List String) (value : Json) : Option Record := ofJsonFrom? 0 names value

/-- A member that has to be written. -/
def required {α : Type} (r : Record) (name : String) (read : Json → Option α) : Option α :=
  (r name).bind read

/-- A member with a value for when it is not written. -/
def defaulted {α : Type} (r : Record) (name : String) (read : Json → Option α) (default : α) :
    Option α :=
  match r name with
  | some value => read value
  | none => some default

/-- A member that may be absent. -/
def optional {α : Type} (r : Record) (name : String) (read : Json → Option α) :
    Option (Option α) :=
  match r name with
  | none => some none
  | some .null => some none
  | some value => (read value).map some

end Record

/-- What a text writes, read as a record.  The first reading sees every member that is written and
so refuses a repeated one; the second sees the settled value. -/
def decode? {α : Type} (read : Json → Option α) (text : String) : Option α := do
  let written ← readMembers? text.toList
  let _ ← read written
  read written.settled

/-! ## Plain members -/

/-- The truth value that a value is. -/
def bool? : Json → Option Bool
  | .bool b => some b
  | _ => none

/-- The text that a value is. -/
def string? : Json → Option String
  | .string s => some s
  | _ => none

/-- The count below `limit` that a value is. -/
def count? (limit : Nat) : Json → Option Nat
  | .number (.integer i) => if 0 ≤ i ∧ i.toNat < limit then some i.toNat else none
  | _ => none

/-- The items of an array, each read by `read`. -/
def items? {α : Type} (read : Json → Option α) : Json → Option (List α)
  | .array values => values.mapM read
  | _ => none

/-- The members of an object. -/
def members? : Json → Option (List (String × Json))
  | .object members => some members
  | _ => none

/-- A member to be written, unless it has nothing to say. -/
def memberUnless (omitted : Bool) (name : String) (value : Json) : List (String × Json) :=
  if omitted then [] else [(name, value)]

/-- A member to be written if there is a value. -/
def memberOfSome {α : Type} (name : String) (write : α → Json) : Option α → List (String × Json)
  | some a => [(name, write a)]
  | none => []

/-- The constructor of an enumeration that is written as its name, or as an object of that one name
whose value is `null`. -/
def choice? {α : Type} (ofName : String → Option α) : Json → Option α
  | .string name => ofName name
  | .object [(name, .null)] => ofName name
  | _ => none

end Gatehouse.Json
