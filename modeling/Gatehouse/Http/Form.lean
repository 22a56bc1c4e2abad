import Gatehouse.Text.Percent

/-!
# Forms

The pairs of names and values that a query holds, in the encoding of web forms.  A blank is a plus
sign, letters, digits and four marks stand for themselves, and every other character is escaped.  So
neither names nor values can hold an ampersand or an equals sign, and the pairs stay apart.
-/

namespace Gatehouse.Http.Form

open Gatehouse.Text

/-- A character that stands for itself. -/
def isPlain (c : Char) : Bool := c.isAlphanum || c = '*' || c = '-' || c = '.' || c = '_'

/-- A name or a value. -/
def encode (text : String) : List Char :=
  (Percent.encode (fun c => !isPlain c && c ≠ ' ') text.toList).map fun c => if c = ' ' then '+' else c

/-- A name with its value. -/
def pair (p : String × String) : String :=
  String.ofList (encode p.1 ++ '=' :: encode p.2)

/-- A query with more pairs at its end; one that would be empty is none. -/
def append (query? : Option String) (pairs : List (String × String)) : Option String :=
  let parts := (query?.toList.filter fun q => !q.isEmpty) ++ pairs.map pair
  if parts.isEmpty then none else some ("&".intercalate parts)

example : append none [("filter", "a == b"), ("n", "3")] = some "filter=a+%3D%3D+b&n=3" := by
  decide +kernel
example : append (some "x=1/y") [("n", "3")] = some "x=1/y&n=3" ∧ append (some "") [] = none := by
  decide +kernel

end Gatehouse.Http.Form
