import Gatehouse.Text.Hidden

/-!
# Quoted texts

Messages name the text they complain about between quotes, so that a reader can tell an empty
text from a blank one and a letter from a look-alike.

* **Rule.**  The quote and the backslash are written with a backslash before them; tab, line feed,
  carriage return and NUL have escapes of one letter; every other character without a visible form
  is written `\u` and its number in hexadecimal digits between braces; all else stands for itself.
* **The two quotes.**  `quoted` wraps a text in `"`, `quotedChar` a character in `'`; each escapes
  its own quote only.
-/

namespace Gatehouse.Text

/-- The escape of `c` inside quotes written with the character `quote`. -/
def escapeIn (quote c : Char) : List Char :=
  if c = '\x00' then ['\\', '0']
  else if c = '\t' then ['\\', 't']
  else if c = '\n' then ['\\', 'n']
  else if c = '\r' then ['\\', 'r']
  else if c = '\\' || c = quote then ['\\', c]
  else if isHidden c then ['\\', 'u', '\x7b'] ++ Nat.toDigits 16 c.toNat ++ ['\x7d']
  else [c]

/-- A text between double quotes. -/
def quoted (s : String) : String :=
  String.ofList ('"' :: s.toList.flatMap (escapeIn '"') ++ ['"'])

/-- A character between single quotes. -/
def quotedChar (c : Char) : String :=
  String.ofList ('\'' :: escapeIn '\'' c ++ ['\''])

/-! ## Quoting at work -/

example : quoted "a\"b\\c'\n" = "\"a\\\"b\\\\c'\\n\"" := by decide +kernel
example : quotedChar '\'' = "'\\''" ∧ quotedChar '"' = "'\"'" := by decide +kernel
example : quoted "\u200b" = "\"\\u\x7b200b\x7d\"" := by decide +kernel

end Gatehouse.Text
