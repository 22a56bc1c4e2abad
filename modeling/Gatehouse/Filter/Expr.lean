import Gatehouse.Filter.Token
import Gatehouse.Json.Order

/-!
# Filters as expressions

What a filter asks of a document.

* **Fields** are paths of names into the document.  A field that is not there is `null` in a
  comparison; alone, it holds only if it is `true`.
* **Equality** is that of values, except that numbers are equal as numbers.  Order is that of
  `Json.compare?`, so values of different kinds are neither less nor greater.
* **Calls** test a text for its start or for a part, or a list of texts for a member.
-/

namespace Gatehouse.Filter

/-- A side of a comparison. -/
inductive Operand where
  | field (path : List String)
  | literal (value : Json)
  deriving Repr

/-- The tests that a field can be called with. -/
inductive Function where
  | startsWith
  | contains
  deriving DecidableEq, Repr

/-- The function of a name. -/
def Function.ofName? (name : String) : Option Function :=
  if name = "startsWith" then some .startsWith
  else if name = "contains" then some .contains
  else none

/-- A filter. -/
inductive Expr where
  | compare (left : Operand) (op : Comparison) (right : Operand)
  | call (path : List String) (function : Function) (argument : String)
  | truthy (path : List String)
  | and (left right : Expr)
  | or (left right : Expr)
  | not (inner : Expr)
  deriving Repr

/-! ## Meaning -/

/-- The value of an operand in a document. -/
def Operand.value (document : Json) : Operand → Json
  | .field path => (Json.lookup? path document).getD .null
  | .literal value => value

/-- Equality of values in filters. -/
def equal : Json → Json → Bool
  | .number a, .number b => a.toDouble.same b.toDouble
  | a, b => a.same b

/-- A comparison holds between two values. -/
def Comparison.holds (op : Comparison) (left right : Json) : Bool :=
  match op with
  | .eq => equal left right
  | .neq => !equal left right
  | .lt => Json.compare? left right = some .lt
  | .lte => (Json.compare? left right).any Ordering.isLE
  | .gt => Json.compare? left right = some .gt
  | .gte => (Json.compare? left right).any Ordering.isGE

/-- One text is a part of another. -/
def isPart (part : List Char) : List Char → Bool
  | [] => part.isEmpty
  | c :: cs => part.isPrefixOf (c :: cs) || isPart part cs

/-- The value is the given text. -/
def isText (text : String) : Json → Bool
  | .string s => s = text
  | _ => false

/-- The value is the truth value that holds. -/
def isTrue : Json → Bool
  | .bool b => b
  | _ => false

/-- A function holds of a value and its argument. -/
def Function.holds (argument : String) : Function → Json → Bool
  | .startsWith, .string s => argument.toList.isPrefixOf s.toList
  | .contains, .string s => isPart argument.toList s.toList
  | .contains, .array items => items.any (isText argument)
  | _, _ => false

/-- A filter holds of a document. -/
def Expr.holds (document : Json) : Expr → Bool
  | .compare left op right => op.holds (left.value document) (right.value document)
  | .call path function argument => (Json.lookup? path document).any (function.holds argument)
  | .truthy path => (Json.lookup? path document).any isTrue
  | .and left right => left.holds document && right.holds document
  | .or left right => left.holds document || right.holds document
  | .not inner => !inner.holds document

end Gatehouse.Filter
