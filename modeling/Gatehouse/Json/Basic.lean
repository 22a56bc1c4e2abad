import Gatehouse.Number.Double

/-!
# JSON values

Documents, requests and answers are JSON.  Three decisions are made here once.

1. **Numbers** keep how they were written: an integer stays an integer, all else is a double.  So
   `1` and `1.0` are different values, though they are the same number (`JsonNumber.toDouble`).
2. **Objects** are lists of members.  A text may repeat a name; `settled` keeps, at every level, the
   last member of each name.  Values that the library builds or stores are settled.
3. **Equality** (`Json.same`) does not look at the order of members, and takes the two zeros of the
   doubles for one, as numeric equality does.  It is what "the same value" means in queries.
-/

namespace Gatehouse

/-- A number as JSON writes it. -/
inductive JsonNumber where
  | integer (i : Int)
  | double (d : Double)
  deriving DecidableEq, Repr

namespace JsonNumber

/-- The number as a double, rounded if it has to be. -/
def toDouble : JsonNumber → Double
  | .integer i => Double.ofInt i
  | .double d => d

/-- Equality of written numbers: integers with integers, doubles with doubles. -/
def same : JsonNumber → JsonNumber → Bool
  | .integer i, .integer j => i = j
  | .double a, .double b => a.same b
  | _, _ => false

end JsonNumber

/-- A JSON value. -/
inductive Json where
  | null
  | bool (b : Bool)
  | number (n : JsonNumber)
  | string (s : String)
  | array (items : List Json)
  | object (members : List (String × Json))
  deriving Inhabited, Repr

namespace Json

/-- An integer as a value. -/
def ofNat (n : Nat) : Json := .number (.integer n)

/-- A list of texts as a value. -/
def strings (texts : List String) : Json := .array (texts.map .string)

/-! ## Members -/

/-- The first member of a name. -/
def member? (name : String) : List (String × Json) → Option Json
  | [] => none
  | (key, value) :: rest => if key = name then some value else member? name rest

/-- The members whose name is not among the given ones. -/
def membersExcept (names : List String) (members : List (String × Json)) : List (String × Json) :=
  members.filter fun m => !names.contains m.1

/-- Follow a path of names through nested objects. -/
def lookup? (path : List String) (value : Json) : Option Json :=
  match path with
  | [] => some value
  | name :: rest =>
    match value with
    | .object members => (member? name members).bind (lookup? rest)
    | _ => none

/-! ## Equality -/

mutual

/-- The two values are the same value. -/
def same : Json → Json → Bool
  | .null, .null => true
  | .bool a, .bool b => a = b
  | .number a, .number b => a.same b
  | .string a, .string b => a = b
  | .array as, .array bs => sameItems as bs
  | .object as, .object bs => as.length = bs.length && sameMembers as bs
  | _, _ => false

/-- The two lists hold the same values in the same order. -/
def sameItems : List Json → List Json → Bool
  | [], [] => true
  | a :: as, b :: bs => same a b && sameItems as bs
  | _, _ => false

/-- Every member on the left has the same value on the right. -/
def sameMembers : List (String × Json) → List (String × Json) → Bool
  | [], _ => true
  | (name, a) :: as, bs =>
    (match member? name bs with
      | some b => same a b
      | none => false) && sameMembers as bs

end

/-! ## One member per name -/

mutual

/-- The value with, at every level, only the last member of each name. -/
def settled : Json → Json
  | .array items => .array (settledItems items)
  | .object members => .object (settledMembers members)
  | value => value

/-- `settled` on each item. -/
def settledItems : List Json → List Json
  | [] => []
  | item :: rest => settled item :: settledItems rest

/-- `settled` on each member that no later one of its name replaces. -/
def settledMembers : List (String × Json) → List (String × Json)
  | [] => []
  | (name, value) :: rest =>
    if rest.any fun m => m.1 = name then settledMembers rest
    else (name, settled value) :: settledMembers rest

end

/-! ## Values and paths -/

example : same (ofNat 1) (.number (.double (Double.ofInt 1))) = false := by decide
example : same (.object [("a", .null), ("b", .bool true)]) (.object [("b", .bool true), ("a", .null)])
    = true := by decide
example : settled (.object [("a", .null), ("a", .bool true)]) matches .object [("a", .bool true)] := by
  decide
example : lookup? ["a", "b"] (.object [("a", .object [("b", .null)])]) matches some .null := by decide

end Json
end Gatehouse
