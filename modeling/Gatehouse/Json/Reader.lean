import Gatehouse.Json.Basic
import Gatehouse.Text.Digits
import Gatehouse.Text.Hex

/-!
# Reading JSON

`Json.read?` reads a whole text as one value.

1. **Grammar.**  RFC 8259, with nothing added: no comments, no byte order mark, no unpaired
   surrogate escapes, and no controls inside strings.
2. **Depth.**  Arrays and objects nest at most `nestingLimit` levels.  The limit is also what makes
   the reader end: the reader of one level is built from the reader of the level below
   (`valueAt`), and within a level every item uses up part of the text.
3. **Numbers (the crux).**  An integer that fits 64 bits stays one.  Of any other number the digits
   are gathered as long as the significand fits 64 bits, the rest only count as places.  The
   significand is then rounded to a double and scaled by one product or quotient with a power of
   ten, each rounded once more; so a number of more than fifteen digits may differ from the
   nearest double by its last bit.  A number too large for a double is refused.
-/

namespace Gatehouse.Json

open Gatehouse.Text

/-- A reader of a value at the head of a text. -/
abbrev Reader (α : Type) := List Char → Option (α × List Char)

/-- The levels to which arrays and objects nest. -/
def nestingLimit : Nat := 127

/-- Drop the blanks of JSON. -/
def dropBlanks (cs : List Char) : List Char :=
  cs.dropWhile fun c => c = ' ' || c = '\n' || c = '\t' || c = '\r'

/-! ## Strings -/

/-- The character that an escape of one letter stands for. -/
def shortEscape? : Char → Option Char
  | '"' => some '"'
  | '\\' => some '\\'
  | '/' => some '/'
  | 'b' => some '\x08'
  | 'f' => some '\x0c'
  | 'n' => some '\n'
  | 'r' => some '\r'
  | 't' => some '\t'
  | _ => none

/-- The character of a surrogate pair. -/
def ofPair (lead trail : Nat) : Char :=
  Char.ofNat (0x10000 + (lead - 0xD800) * 0x400 + (trail - 0xDC00))

/-- The rest of a string after its opening quote. -/
def stringBody : List Char → Option (List Char × List Char)
  | [] => none
  | '"' :: cs => some ([], cs)
  | '\\' :: 'u' :: a :: b :: c :: d :: cs => do
    let n ← hex4? a b c d
    if isLead n then
      match cs with
      | '\\' :: 'u' :: e :: f :: g :: h :: rest => do
        let m ← hex4? e f g h
        if isTrail m then
          let (body, left) ← stringBody rest
          return (ofPair n m :: body, left)
        else none
      | _ => none
    else if isTrail n then none
    else
      let (body, left) ← stringBody cs
      return (Char.ofNat n :: body, left)
  | '\\' :: e :: cs => do
    let c ← shortEscape? e
    let (body, left) ← stringBody cs
    return (c :: body, left)
  | c :: cs =>
    if c.toNat < 0x20 || c = '\\' then none
    else do
      let (body, left) ← stringBody cs
      return (c :: body, left)

/-! ## Numbers -/

/-- One more than the largest significand. -/
def significandLimit : Nat := UInt64.size

/-- Add digits to a significand as long as it fits; the digits that no longer do are left. -/
def gather : Nat → List Char → Nat × List Char
  | n, [] => (n, [])
  | n, c :: cs =>
    if 10 * n + digitValue c < significandLimit then gather (10 * n + digitValue c) cs
    else (n, c :: cs)

/-- The powers of ten by which a number is scaled in one step. -/
def greatestPower : Nat := 308

/-- A power of ten as a double. -/
def powerOfTen (n : Nat) : Double := Double.ofDecimal false 1 n

/-- Divide by a power of ten, in steps of at most `greatestPower` places. -/
def divideByPower : Nat → Double → Nat → Double
  | 0, x, _ => ⟨x.negative, 0⟩
  | steps + 1, x, places =>
    if places ≤ greatestPower then x.div (powerOfTen places)
    else divideByPower steps (x.div (powerOfTen greatestPower)) (places - greatestPower)

/-- `significand * 10 ^ exponent` as a double; `none` if it is too large for one. -/
def scale? (negative : Bool) (significand : Nat) (exponent : Int) : Option Double :=
  let x : Double := ⟨negative, (Double.ofInt significand).rank⟩
  if exponent ≤ 0 then some (divideByPower 4 x exponent.natAbs)
  else if significand = 0 then some x
  else if exponent.natAbs ≤ greatestPower then
    let y := x.mul (powerOfTen exponent.natAbs)
    if y.isFinite then some y else none
  else none

/-- The exponent after its `e`; `none` if there is no digit. -/
def exponentPart (cs : List Char) : Option (Int × List Char) :=
  let (negative, rest) := match cs with
    | '+' :: r => (false, r)
    | '-' :: r => (true, r)
    | r => (false, r)
  let digits := rest.takeWhile Char.isDigit
  if digits.isEmpty then none
  else
    let n : Int := ofDigits digits
    some (if negative then -n else n, rest.drop digits.length)

/-- A number with a fraction or an exponent, or an integer that does not fit: `whole` are its
digits before the point. -/
def decimalNumber (negative : Bool) (whole : List Char) (cs : List Char) :
    Option (JsonNumber × List Char) := do
  let (significand, dropped) := gather 0 whole
  let (significand, exponent, rest) ← match cs with
    | '.' :: r =>
      let places := r.takeWhile Char.isDigit
      if places.isEmpty then none
      else
        let (significand, unused) := gather significand places
        some (significand, (dropped.length : Int) - (places.length - unused.length : Nat),
          r.drop places.length)
    | r => some (significand, (dropped.length : Int), r)
  let (power, rest) ← match rest with
    | 'e' :: r => exponentPart r
    | 'E' :: r => exponentPart r
    | r => some (0, r)
  let d ← scale? negative significand (exponent + power)
  return (.double d, rest)

/-- An integer as it is kept: one that fits 64 bits stays an integer, zero with a sign does not. -/
def keptInteger? (negative : Bool) (n : Nat) : Option JsonNumber :=
  if negative then (if 0 < n ∧ n ≤ UInt64.size / 2 then some (.integer (-(n : Int))) else none)
  else if n < UInt64.size then some (.integer n) else none

/-- A number after its sign. -/
def unsignedNumber (negative : Bool) (cs : List Char) : Option (JsonNumber × List Char) :=
  let whole := cs.takeWhile Char.isDigit
  let rest := cs.drop whole.length
  if whole.isEmpty || (whole.head? = some '0' && whole.length ≠ 1) then none
  else
    match rest.head?, keptInteger? negative (ofDigits whole) with
    | some '.', _ => decimalNumber negative whole rest
    | some 'e', _ => decimalNumber negative whole rest
    | some 'E', _ => decimalNumber negative whole rest
    | _, some n => some (n, rest)
    | _, none => decimalNumber negative whole rest

/-- A number with its sign. -/
def signedNumber : Reader JsonNumber
  | '-' :: cs => unsignedNumber true cs
  | cs => unsignedNumber false cs

/-! ## Values -/

/-- The items of an array after its bracket, of which there is at least one; at most `fuel`. -/
def items (value : Reader Json) : Nat → Reader (List Json)
  | 0 => fun _ => none
  | fuel + 1 => fun cs => do
    let (item, rest) ← value cs
    match dropBlanks rest with
    | ',' :: more => do
      let (others, left) ← items value fuel more
      return (item :: others, left)
    | ']' :: left => return ([item], left)
    | _ => none

/-- The members of an object after its brace, of which there is at least one; at most `fuel`. -/
def members (value : Reader Json) : Nat → Reader (List (String × Json))
  | 0 => fun _ => none
  | fuel + 1 => fun cs => do
    match dropBlanks cs with
    | '"' :: r => do
      let (name, r) ← stringBody r
      match dropBlanks r with
      | ':' :: r => do
        let (item, rest) ← value r
        let here := (String.ofList name, item)
        match dropBlanks rest with
        | ',' :: more => do
          let (others, left) ← members value fuel more
          return (here :: others, left)
        | '\x7d' :: left => return ([here], left)
        | _ => none
      | _ => none
    | _ => none

/-- A value other than an array or an object. -/
def scalar : Reader Json
  | 'n' :: 'u' :: 'l' :: 'l' :: cs => some (.null, cs)
  | 't' :: 'r' :: 'u' :: 'e' :: cs => some (.bool true, cs)
  | 'f' :: 'a' :: 'l' :: 's' :: 'e' :: cs => some (.bool false, cs)
  | '"' :: cs => (stringBody cs).map fun (s, rest) => (.string (String.ofList s), rest)
  | cs => (signedNumber cs).map fun (n, rest) => (.number n, rest)

/-- A value, with arrays and objects to the given depth; `fuel` bounds the length of each. -/
def valueAt (fuel : Nat) : Nat → Reader Json
  | 0 => fun cs =>
    match dropBlanks cs with
    | '[' :: _ => none
    | '\x7b' :: _ => none
    | r => scalar r
  | depth + 1 => fun cs =>
    match dropBlanks cs with
    | '[' :: r =>
      match dropBlanks r with
      | ']' :: left => some (.array [], left)
      | more => (items (valueAt fuel depth) fuel more).map fun (vs, left) => (.array vs, left)
    | '\x7b' :: r =>
      match dropBlanks r with
      | '\x7d' :: left => some (.object [], left)
      | more => (members (valueAt fuel depth) fuel more).map fun (ms, left) => (.object ms, left)
    | r => scalar r

/-- The value that a whole text writes, with every member that is written. -/
def readMembers? (text : List Char) : Option Json :=
  match valueAt (text.length + 1) nestingLimit text with
  | some (value, rest) => if (dropBlanks rest).isEmpty then some value else none
  | none => none

/-- The value that a whole text writes. -/
def read? (text : String) : Option Json := (readMembers? text.toList).map settled

/-! ## Texts and values -/

example : stringBody "\\ud83d\\ude00\"x".toList = some (['😀'], ['x']) := by decide +kernel
example : stringBody "\\ud83d\"".toList = none := by decide +kernel
example : signedNumber "-0".toList = some (.double ⟨true, 0⟩, []) := by decide +kernel
example : signedNumber "18446744073709551615,".toList = some (.integer (2 ^ 64 - 1), [',']) := by
  decide +kernel
example : signedNumber "01".toList = none ∧ signedNumber "1.".toList = none ∧
    signedNumber "1e400".toList = none := by decide +kernel

end Gatehouse.Json
