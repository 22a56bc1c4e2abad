import Gatehouse.Text.Base64
import Gatehouse.Text.Digits

/-!
# Page tokens

A token names the number of matches that come before a page.  It is the text `offset:` and the
number, in base 64, so that nobody is tempted to compute with it.  A sign and leading zeros are read,
though never written.
-/

namespace Gatehouse.Store.PageToken

open Gatehouse.Text

/-- What stands before the number. -/
def label : List Char := "offset:".toList

/-- One past the greatest offset. -/
def limit : Nat := UInt64.size

/-- A text of ASCII as bytes. -/
def bytes (cs : List Char) : List UInt8 := cs.map fun c => UInt8.ofNat c.toNat

/-- The token of an offset. -/
def encode (offset : Nat) : String :=
  String.ofList (Base64.encode (bytes (label ++ decimal offset)))

/-- The offset of a token. -/
def decode? (token : String) : Option Nat := do
  let bs ← Base64.decode? token.toList
  let cs := bs.map fun b => Char.ofNat b.toNat
  if label.isPrefixOf cs then readCount? limit (cs.drop label.length) else none

/-! ## Tokens -/

example : encode 40 = "b2Zmc2V0OjQw" := by decide +kernel
example : decode? "b2Zmc2V0OjQw" = some 40 := by decide +kernel
example : decode? "bGltaXQ6Mw==" = none := by decide +kernel

end Gatehouse.Store.PageToken
