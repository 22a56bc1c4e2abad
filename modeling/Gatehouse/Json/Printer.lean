import Gatehouse.Json.Basic
import Gatehouse.Number.Shortest

/-!
# Writing JSON

`Json.compact` writes a value without blanks.

* **Members** are written in the order of their names, so that one value has one text.
* **Strings** escape the quote, the backslash and the controls; all else stands for itself.
* **Numbers.**  Integers are plain digits.  A double has the fewest digits that read back and always
  a mark that it is one: a point or an exponent.  It is written in place from `1e-5` up to sixteen
  digits before the point, and in scientific notation beyond.
-/

namespace Gatehouse.Json

open Gatehouse.Text

/-- A digit of hexadecimal numbers. -/
def hexDigit (n : Nat) : Char := if n < 10 then Char.ofNat (48 + n) else Char.ofNat (87 + n)

/-- A character inside a string. -/
def escaped (c : Char) : List Char :=
  if c = '"' then ['\\', '"']
  else if c = '\\' then ['\\', '\\']
  else if c = '\n' then ['\\', 'n']
  else if c = '\r' then ['\\', 'r']
  else if c = '\t' then ['\\', 't']
  else if c = '\x08' then ['\\', 'b']
  else if c = '\x0c' then ['\\', 'f']
  else if c.toNat < 0x20 then ['\\', 'u', '0', '0', hexDigit (c.toNat / 16), hexDigit (c.toNat % 16)]
  else [c]

/-- A string between its quotes. -/
def stringText (s : String) : List Char := '"' :: s.toList.flatMap escaped ++ ['"']

/-- An integer in decimal. -/
def integerText (i : Int) : List Char := if i < 0 then '-' :: decimal i.natAbs else decimal i.natAbs

/-- A finite double. -/
def doubleText (d : Double) : List Char :=
  let (digits, exponent) := d.shortest
  let ds := decimal digits
  let point : Int := ds.length + exponent
  let body :=
    if d.rank = 0 then "0.0".toList
    else if 0 ≤ exponent ∧ point ≤ 16 then Double.positional digits exponent ++ ['.', '0']
    else if exponent < 0 ∧ -5 < point ∧ point ≤ 16 then Double.positional digits exponent
    else
      let mantissa := match ds with
        | [] => []
        | [c] => [c]
        | c :: rest => c :: '.' :: rest
      mantissa ++ 'e' :: integerText (point - 1)
  if d.negative then '-' :: body else body

/-- A number. -/
def numberText : JsonNumber → List Char
  | .integer i => integerText i
  | .double d => doubleText d

/-- Texts parted by commas. -/
def commaSeparated : List (List Char) → List Char
  | [] => []
  | [t] => t
  | t :: ts => t ++ ',' :: commaSeparated ts

mutual

/-- A value without blanks. -/
def text : Json → List Char
  | .null => "null".toList
  | .bool true => "true".toList
  | .bool false => "false".toList
  | .number n => numberText n
  | .string s => stringText s
  | .array items => '[' :: commaSeparated (itemTexts items) ++ [']']
  | .object members =>
    let texts := (memberTexts members).mergeSort fun a b => decide (a.1 ≤ b.1)
    '\x7b' :: commaSeparated (texts.map fun m => stringText m.1 ++ ':' :: m.2) ++ ['\x7d']

/-- The texts of items. -/
def itemTexts : List Json → List (List Char)
  | [] => []
  | item :: rest => text item :: itemTexts rest

/-- The names of members with the texts of their values. -/
def memberTexts : List (String × Json) → List (String × List Char)
  | [] => []
  | (name, value) :: rest => (name, text value) :: memberTexts rest

end

/-- A value as one line of text. -/
def compact (value : Json) : String := String.ofList (text value)

/-! ## Written values -/

example : stringText "x\n\x01" = "\"x\\n\\u0001\"".toList := by decide +kernel
example : doubleText (Double.ofInt 1) = "1.0".toList := by decide +kernel
example : doubleText (Double.ofDecimal true 15 (-8)) = "-1.5e-7".toList := by decide +kernel

end Gatehouse.Json
